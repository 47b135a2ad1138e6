/-
# Publication.Targets -- target keys and URLs never collide

A key is the configured prefix, then one segment each for the environment, the module, the
scope, the hashed identity and the digest.  No segment holds a slash, so the segments are
read back from the key; the URL encodes them once more and they are read back from it too.
What is asked of SHA-256 is its hexadecimal form and that it is injective on the texts hashed.
-/
import SdcoreNest.Publication.Coordinator
import SdcoreNest.Theory.Encoding

namespace SdcoreNest.Publication

open SdcoreNest.Theory SdcoreNest.Theory.JsString

set_option autoImplicit false

/-! ## Segments -/

/-- A text that is one segment of a key and stays one when paths are resolved. -/
structure Segment (s : JsString) : Prop where
  nonempty : s ≠ []
  dot : s ≠ js "."
  dots : s ≠ js ".."
  whole : slash ∉ s
  plain : backslash ∉ s
  printable : publicationHasControlCharacter s = false

theorem of_part {value checked : JsString} (passed : part value = .ok checked) :
    Segment value ∧ ∃ text, encodeURIComponent value = some text := by
  unfold part at passed
  split at passed
  · cases passed
  · split at passed
    · cases passed
    next refused unknown =>
      simp only [not_or] at refused
      obtain ⟨nonempty, -, -, slashes, backslashes, controls, dot, dots⟩ := refused
      refine ⟨⟨nonempty, dot, dots, by simpa using slashes, by simpa using backslashes,
        by simpa using controls⟩, ?_⟩
      exact Option.ne_none_iff_exists'.mp (by simpa using unknown)

theorem encodeByte_printable : ∀ n : Fin 256, (encodeByte n).all (fun u =>
    u ≠ backslash && !(u.toNat ≤ 31 || u.toNat = 127)) = true := by
  decide +kernel

/-- Encoding a segment gives a segment. -/
theorem Segment.encode {s text : JsString} (segment : Segment s)
    (found : encodeURIComponent s = some text) : Segment text where
  nonempty := by
    rintro rfl
    exact segment.nonempty (encodeURIComponent_inj found rfl)
  dot := by
    rintro rfl
    exact segment.dot (encodeURIComponent_inj found rfl)
  dots := by
    rintro rfl
    exact segment.dots (encodeURIComponent_inj found rfl)
  whole := slash_not_mem_encodeURIComponent found
  plain := by
    intro inside
    obtain ⟨n, held⟩ := mem_encodeURIComponent found inside
    have apart := List.all_eq_true.mp (encodeByte_printable n) _ held
    simp at apart
  printable := by
    rw [publicationHasControlCharacter, List.any_eq_false]
    intro u inside
    obtain ⟨n, held⟩ := mem_encodeURIComponent found inside
    have apart := List.all_eq_true.mp (encodeByte_printable n) _ held
    simp only [Bool.and_eq_true, Bool.not_eq_true'] at apart
    simp [apart.2]

theorem Segment.digest {value : JsString} (digest : isSha256 value = true) : Segment value := by
  obtain ⟨length, digits⟩ := Bool.and_eq_true_iff.mp digest
  have length := of_decide_eq_true length
  refine ⟨?_, ?_, ?_, ?_, ?_, ?_⟩
  · rintro rfl
    cases length
  · rintro rfl
    revert length
    decide
  · rintro rfl
    revert length
    decide
  · intro inside
    have digit := List.all_eq_true.mp digits slash inside
    revert digit
    decide
  · intro inside
    have digit := List.all_eq_true.mp digits backslash inside
    revert digit
    decide
  · rw [publicationHasControlCharacter, List.any_eq_false]
    intro u inside
    have digit := List.all_eq_true.mp digits u inside
    simp [isDigit] at digit ⊢
    omega

/-! ## The shape of a target -/

/-- The configured segments before those of the binding. -/
def Config.prefixSegments (config : Config) : List JsString :=
  if config.keyPrefix = [] then [] else splitOn slash config.keyPrefix

/-- What the digest of a binding's identity is taken of. -/
def Binding.identityText (binding : Binding) : JsString :=
  js "[" ++ joinWith (js ",") [quote binding.bindingId, quote binding.generation] ++ js "]"

/-- A binding and a source that `stage` accepts, with their target. -/
structure Accepted (platform : Platform) (config : Config) (binding : Binding) (source : Source)
    (target : Target) : Prop where
  authorized : authorizedBinding config binding = .ok binding
  checked : publicationSource source = .ok source
  computed : targetFor platform config binding source = .ok target

/-- What the target of an accepted pair is made of. -/
structure Layout (platform : Platform) (config : Config) (binding : Binding) (source : Source)
    (target : Target) where
  base : JsString
  modulePrefix : JsString
  scope : JsString
  segments : List JsString
  path : List JsString
  environment_eq : binding.environment = config.environment
  module_eq : config.modulePrefixes.lookup binding.module = some modulePrefix
  base_eq : publicationCdnBase platform config.cdnBaseUrl = .ok base
  scope_eq : encodeURIComponent binding.scopeId = some scope
  segments_eq : segments = config.prefixSegments ++ [binding.environment, modulePrefix, js "public",
    scope, platform.publicationHash binding.identityText, source.sha256]
  segment : ∀ segment ∈ segments, Segment segment
  key_eq : target.key = joinWith [slash] segments
  path_eq : List.Forall₂ (fun segment text => encodeURIComponent segment = some text) segments path
  url_eq : target.url = base ++ [slash] ++ joinWith [slash] path

/-- Both branches go on alike. -/
theorem of_ite_bind_ok {α β ε : Type} {condition : Prop} [Decidable condition]
    {first second : Except ε α} {next : α → Except ε β} {result : β}
    (passed : (if condition then first >>= next else second >>= next) = .ok result) :
    ∃ value, (if condition then first else second) = .ok value ∧ next value = .ok result := by
  split at passed
  next holds => exact (if_pos holds).symm ▸ of_bind_ok passed
  next fails => exact (if_neg fails).symm ▸ of_bind_ok passed

theorem of_mapM_part {values checked : List JsString} (passed : values.mapM part = .ok checked) :
    checked = values ∧ ∀ value ∈ values, Segment value := by
  have each := of_mapM_ok passed
  clear passed
  induction each with
  | nil => exact ⟨rfl, by simp⟩
  | cons first _ ih =>
      obtain ⟨rfl, later⟩ := ih
      refine ⟨by rw [part_eq first], ?_⟩
      intro value inside
      rcases List.mem_cons.mp inside with rfl | inside
      · exact (of_part first).1
      · exact later value inside

theorem encoded_ok {value text : JsString} (passed : encoded value = .ok text) :
    encodeURIComponent value = some text := by
  unfold encoded at passed
  split at passed
  next found =>
    cases passed
    exact found
  · cases passed

section

variable {platform : Platform} {config : Config} {binding binding' : Binding}
  {source source' : Source} {target target' : Target}

/-- An empty prefix leaves no segment behind. -/
theorem joinWith_filter {segments rest : List JsString} (nonempty : rest ≠ [])
    (segment : ∀ part ∈ segments ++ rest, part ≠ []) :
    joinWith [slash] ((joinWith [slash] segments :: rest).filter (· ≠ [])) =
      joinWith [slash] (segments ++ rest) := by
  have kept : rest.filter (· ≠ []) = rest := by
    rw [List.filter_eq_self]
    intro part inside
    simpa using segment part (List.mem_append_right _ inside)
  cases segments with
  | nil => simpa [joinWith] using congrArg (fun parts => (parts.intersperse [slash]).flatten) kept
  | cons first later =>
      have present : joinWith [slash] (first :: later) ≠ [] := by
        have front := segment first List.mem_cons_self
        cases later with
        | nil => simpa [joinWith] using front
        | cons second others =>
            rw [joinWith_cons_cons]
            simp
      rw [List.filter_cons_of_pos (by simpa using present), kept]
      exact joinWith_joinWith slash (List.cons_ne_nil _ _) nonempty

theorem of_publicationSource {source : Source} (checked : publicationSource source = .ok source) :
    isSha256 source.sha256 = true := by
  unfold publicationSource at checked
  split at checked
  · cases checked
  next refused =>
    simp only [not_or] at refused
    simpa using refused.2.2.2.1

theorem of_authorizedBinding (passed : authorizedBinding config binding = .ok binding) :
    Segment binding.environment ∧ Segment binding.scopeId := by
  obtain ⟨checked, passed, -⟩ := of_bind_ok passed
  obtain ⟨environment, first, passed⟩ := of_bind_ok passed
  obtain ⟨module, -, passed⟩ := of_bind_ok passed
  obtain ⟨scopeId, third, -⟩ := of_bind_ok passed
  exact ⟨(of_part first).1, (of_part third).1⟩

/-- The digest is written in hexadecimal. -/
def Platform.HexDigests (platform : Platform) : Prop :=
  ∀ text, isSha256 (platform.publicationHash text) = true

theorem Segment.public : Segment (js "public") := by
  refine ⟨?_, ?_, ?_, ?_, ?_, ?_⟩ <;> decide

theorem Accepted.layout (accepted : Accepted platform config binding source target)
    (hex : platform.HexDigests) : Nonempty (Layout platform config binding source target) := by
  obtain ⟨environmentPart, scopePart⟩ := of_authorizedBinding accepted.authorized
  have digest := Segment.digest (of_publicationSource accepted.checked)
  have identity := Segment.digest (hex binding.identityText)
  have computed := accepted.computed
  unfold targetFor at computed
  split at computed
  · cases computed
  next modulePrefix found =>
    split at computed
    · cases computed
    next allowed =>
      obtain ⟨base, baseEq, computed⟩ := of_bind_ok computed
      obtain ⟨segments, prefixEq, computed⟩ := of_ite_bind_ok computed
      obtain ⟨modulePart, moduleEq, computed⟩ := of_bind_ok computed
      obtain ⟨environment, environmentEq, computed⟩ := of_bind_ok computed
      obtain ⟨scope, scopeEq, computed⟩ := of_bind_ok computed
      obtain ⟨path, pathEq, computed⟩ := of_bind_ok computed
      cases computed
      obtain rfl := part_eq moduleEq
      obtain rfl := part_eq environmentEq
      have scopeEq := encoded_ok scopeEq
      have prefixes : segments = config.prefixSegments ∧
          ∀ segment ∈ config.prefixSegments, Segment segment := by
        unfold Config.prefixSegments
        split at prefixEq
        next empty =>
          cases prefixEq
          rw [if_pos empty]
          exact ⟨rfl, by simp⟩
        next present =>
          rw [if_neg present]
          exact of_mapM_part prefixEq
      obtain ⟨rfl, prefixSegment⟩ := prefixes
      have each : ∀ segment ∈ config.prefixSegments ++ [binding.environment, modulePart, js "public",
          scope, platform.publicationHash binding.identityText, source.sha256], Segment segment := by
        intro segment inside
        rcases List.mem_append.mp inside with inside | inside
        · exact prefixSegment segment inside
        · simp only [List.mem_cons, List.not_mem_nil, or_false] at inside
          rcases inside with rfl | rfl | rfl | rfl | rfl | rfl
          · exact environmentPart
          · exact (of_part moduleEq).1
          · exact Segment.public
          · exact scopePart.encode scopeEq
          · exact identity
          · exact digest
      have keyEq := joinWith_filter (List.cons_ne_nil _ _) fun part inside => (each part inside).nonempty
      have split := splitOn_joinWith (by simp) fun part inside => (each part inside).whole
      refine ⟨⟨base, modulePart, scope, _, path, ?_, found, baseEq, scopeEq, rfl, each, keyEq, ?_, rfl⟩⟩
      · by_contra different
        exact allowed (.inr different)
      · have read := (congrArg (splitOn slash) keyEq).trans split
        have each := of_mapM_ok ((congrArg (List.mapM encoded) read).symm.trans pathEq)
        exact each.imp fun _ _ => encoded_ok

/-! ## Reading the segments back -/

theorem Layout.splitOn_key (layout : Layout platform config binding source target) :
    splitOn slash target.key = layout.segments := by
  rw [layout.key_eq]
  refine splitOn_joinWith ?_ fun part inside => (layout.segment part inside).whole
  rw [layout.segments_eq]
  simp

theorem Layout.splitOn_path (layout : Layout platform config binding source target) :
    splitOn slash (joinWith [slash] layout.path) = layout.path := by
  refine splitOn_joinWith ?_ ?_
  · intro empty
    have lengths := layout.path_eq.length_eq
    rw [layout.segments_eq, empty] at lengths
    simp at lengths
  · intro part inside
    obtain ⟨index, rfl⟩ := List.mem_iff_get.mp inside
    have inside : index < layout.segments.length := by
      rw [layout.path_eq.length_eq]
      exact index.isLt
    have found := layout.path_eq.get inside index.isLt
    exact slash_not_mem_encodeURIComponent found

theorem Layout.key_eq_iff (layout : Layout platform config binding source target)
    (other : Layout platform config binding' source' target') :
    target.key = target'.key ↔ layout.segments = other.segments := by
  constructor
  · intro same
    rw [← layout.splitOn_key, ← other.splitOn_key, same]
  · intro same
    rw [layout.key_eq, other.key_eq, same]

/-- The base is the same for every target. -/
theorem Layout.url_eq_iff (layout : Layout platform config binding source target)
    (other : Layout platform config binding' source' target') :
    target.url = target'.url ↔ layout.segments = other.segments := by
  have bases : layout.base = other.base := by
    have found := layout.base_eq
    rw [other.base_eq] at found
    exact (Except.ok.inj found).symm
  rw [layout.url_eq, other.url_eq, bases]
  constructor
  · intro same
    have joined := List.append_cancel_left same
    have paths : layout.path = other.path := by
      rw [← layout.splitOn_path, ← other.splitOn_path, joined]
    have first := layout.path_eq
    rw [paths] at first
    refine List.left_unique_forall₂' ?_ first other.path_eq
    intro segment segment' text one two
    exact encodeURIComponent_inj one two
  · intro same
    have first := layout.path_eq
    rw [same] at first
    rw [List.right_unique_forall₂' (fun _ _ _ found found' => Option.some.inj (found ▸ found')) first
      other.path_eq]

theorem mem_of_lookup {prefixes : List (JsString × JsString)} {module modulePrefix : JsString}
    (found : prefixes.lookup module = some modulePrefix) : (module, modulePrefix) ∈ prefixes := by
  obtain ⟨before, after, rfl, -⟩ := List.lookup_eq_some_iff.mp found
  simp

/-- Modules with different names have different prefixes. -/
theorem module_unique {prefixes : List (JsString × JsString)} (distinct : (prefixes.map Prod.snd).Nodup)
    {module module' modulePrefix : JsString} (first : prefixes.lookup module = some modulePrefix)
    (second : prefixes.lookup module' = some modulePrefix) : module = module' := by
  have listed := mem_of_lookup first
  have listed' := mem_of_lookup second
  exact congrArg Prod.fst (List.inj_on_of_nodup_map distinct listed listed' rfl)

theorem identityText_inj (same : binding.identityText = binding'.identityText) :
    binding.bindingId = binding'.bindingId ∧ binding.generation = binding'.generation := by
  simp only [Binding.identityText, joinWith, List.intersperse, List.flatten_cons, List.flatten_nil,
    List.append_assoc, List.append_nil] at same
  obtain ⟨ids, tails⟩ := quote_delimits (List.append_cancel_left same)
  obtain ⟨numbers, -⟩ := quote_delimits (List.append_cancel_left tails)
  exact ⟨ids, numbers⟩

/-- The segments say which binding and which bytes a target is for. -/
theorem Layout.segments_eq_iff (layout : Layout platform config binding source target)
    (other : Layout platform config binding' source' target')
    (distinct : (config.modulePrefixes.map Prod.snd).Nodup) {texts : Set JsString}
    (injective : Set.InjOn platform.publicationHash texts) (hashed : binding.identityText ∈ texts)
    (hashed' : binding'.identityText ∈ texts) :
    layout.segments = other.segments ↔ binding = binding' ∧ source.sha256 = source'.sha256 := by
  rw [layout.segments_eq, other.segments_eq]
  constructor
  · intro same
    have tails := List.append_cancel_left same
    simp only [List.cons.injEq, and_true, true_and] at tails
    obtain ⟨environments, modules, scopes, identities, digests⟩ := tails
    have module := module_unique distinct layout.module_eq (modules ▸ other.module_eq)
    have scope := encodeURIComponent_inj layout.scope_eq (scopes ▸ other.scope_eq)
    obtain ⟨id, number⟩ := identityText_inj (injective hashed hashed' identities)
    refine ⟨?_, digests⟩
    cases binding
    cases binding'
    congr
  · rintro ⟨rfl, digests⟩
    have modules := layout.module_eq
    rw [other.module_eq] at modules
    have scopes := layout.scope_eq
    rw [other.scope_eq] at scopes
    rw [digests, Option.some.inj modules, Option.some.inj scopes]

end

/-- Targets of two accepted pairs have the same key, or the same URL, just when the pairs agree
in the whole binding and in the digest; and every field of a binding stays in a segment of its own. -/
theorem targets_apart (coordinator : Coordinator)
    (hex : coordinator.platform.HexDigests) {texts : Set JsString}
    (injective : Set.InjOn coordinator.platform.publicationHash texts)
    (distinct : (coordinator.config.modulePrefixes.map Prod.snd).Nodup)
    {binding binding' : Binding} {source source' : Source} {target target' : Target}
    (accepted : Accepted coordinator.platform coordinator.config binding source target)
    (accepted' : Accepted coordinator.platform coordinator.config binding' source' target')
    (hashed : binding.identityText ∈ texts) (hashed' : binding'.identityText ∈ texts) :
    (target.key = target'.key ↔ binding = binding' ∧ source.sha256 = source'.sha256) ∧
    (target.url = target'.url ↔ binding = binding' ∧ source.sha256 = source'.sha256) ∧
    (∃ modulePrefix scope,
      coordinator.config.modulePrefixes.lookup binding.module = some modulePrefix ∧
      encodeURIComponent binding.scopeId = some scope ∧
      splitOn slash target.key = coordinator.config.prefixSegments ++
        [binding.environment, modulePrefix, js "public", scope,
          coordinator.platform.publicationHash binding.identityText, source.sha256]) ∧
    ∀ segment ∈ splitOn slash target.key, segment ≠ [] ∧ segment ≠ js "." ∧ segment ≠ js ".." := by
  obtain ⟨layout⟩ := accepted.layout hex
  obtain ⟨other⟩ := accepted'.layout hex
  have pairs := layout.segments_eq_iff other distinct injective hashed hashed'
  refine ⟨(layout.key_eq_iff other).trans pairs, (layout.url_eq_iff other).trans pairs, ?_, ?_⟩
  · exact ⟨layout.modulePrefix, layout.scope, layout.module_eq, layout.scope_eq,
      layout.splitOn_key.trans layout.segments_eq⟩
  · intro segment inside
    rw [layout.splitOn_key] at inside
    have part := layout.segment segment inside
    exact ⟨part.nonempty, part.dot, part.dots⟩

/-! A rendition and its next generation. -/

/-- The digests of two identities, and of every other text that of the second. -/
def twoDigests (text : JsString) : JsString :=
  if text = js "[\"hero\",\"1\"]" then
    js "8b7cf92ccec5eb71a0515d296a473d783c0c4e4dc914f0999052599626ffb62c"
  else js "afbf6b16f882781fc967c5f41d85aa1ebe3d9173b484a291b97177c05e28f4a2"

def samplePlatform : Platform where
  publicationHash := twoDigests
  parseUrl text := some ⟨js "https:", [], [], [], [], text ++ [slash]⟩

def sampleConfig : Config :=
  ⟨js "live", js "media/site", [(js "pages", js "page-assets"), (js "shop", js "shop-assets")],
    some (js "https://cdn.example"), true⟩

def sampleCoordinator : Coordinator :=
  ⟨samplePlatform, sampleConfig, .finite 30000, .finite 30000, by decide +kernel⟩

def sampleBinding (generation : String) : Binding :=
  ⟨js "live", js "pages", js "site 1", js "hero", js generation⟩

def sampleSource : Source :=
  ⟨js "upload", js "1", js "uploads/hero.png",
    js "2cea274d0bedc39ec4ab6ba9e59ec889e3ed6fb56a1cf088a64d9b383378dc97", .finite 7, js "image/png"⟩

def sampleTarget (identity : String) : Target :=
  ⟨js "media/site/live/page-assets/public/site%201/" ++ js identity ++
      js "/2cea274d0bedc39ec4ab6ba9e59ec889e3ed6fb56a1cf088a64d9b383378dc97",
    js "https://cdn.example/media/site/live/page-assets/public/site%25201/" ++ js identity ++
      js "/2cea274d0bedc39ec4ab6ba9e59ec889e3ed6fb56a1cf088a64d9b383378dc97"⟩

theorem sample_accepted : Accepted samplePlatform sampleConfig (sampleBinding "1") sampleSource
    (sampleTarget "8b7cf92ccec5eb71a0515d296a473d783c0c4e4dc914f0999052599626ffb62c") := by
  refine ⟨?_, ?_, ?_⟩ <;> decide +kernel

theorem sample_accepted' : Accepted samplePlatform sampleConfig (sampleBinding "2") sampleSource
    (sampleTarget "afbf6b16f882781fc967c5f41d85aa1ebe3d9173b484a291b97177c05e28f4a2") := by
  refine ⟨?_, ?_, ?_⟩ <;> decide +kernel

theorem sample_hex : samplePlatform.HexDigests := by
  intro text
  change isSha256 (twoDigests text) = true
  unfold twoDigests
  split <;> decide +kernel

/-- The generations are kept apart. -/
theorem targets_apart_generations :
    (sampleTarget "8b7cf92ccec5eb71a0515d296a473d783c0c4e4dc914f0999052599626ffb62c").key ≠
      (sampleTarget "afbf6b16f882781fc967c5f41d85aa1ebe3d9173b484a291b97177c05e28f4a2").key := by
  have injective : Set.InjOn samplePlatform.publicationHash
      {(sampleBinding "1").identityText, (sampleBinding "2").identityText} := by
    rintro text (rfl | rfl) other (rfl | rfl) same
    · rfl
    · exact absurd same (by decide +kernel)
    · exact absurd same (by decide +kernel)
    · rfl
  have apart := targets_apart sampleCoordinator sample_hex injective (by decide +kernel)
    sample_accepted sample_accepted' (.inl rfl) (.inr rfl)
  intro same
  exact absurd (apart.1.mp same).1 (by decide +kernel)

end SdcoreNest.Publication
