/-
# Settings in layers

The layers of settings lie on top of one another: what a layer states covers what is stated below
it, setting by setting, and a setting that no layer states keeps its default.  A file that cannot
be read or understood ends the loading at once, whatever lies on top of it; but a value that cannot
be worked with does no harm where it is covered, since only what is in force at the end is checked.

* `Setting.stated_of_parse` : a file states the settings whose keys it has;
* `Setting.InForce`, `Setting.inForce_ofLayers` : the value of the highest layer that states a
  setting is in force;
* `Settings.foldl_merge` : layers are merged one by one, or as one;
* `Settings.ofLayers_congr` : what is covered does not matter;
* `Settings.load_eq_ok_iff`, `Settings.load_eq_error_iff` : when loading succeeds, and how it fails;
* `Settings.load_layers` : the precedence of the layers.
-/
import FieldTree.Proofs.Stages
import FieldTree.Proofs.Saving

namespace FieldTree

namespace Overlay

open Toml (Entries Misfit)

variable {files : Files} {path : String} {layer : Overlay} {f : Failure}

/-! ## The layers of files -/

/-- A file states a layer: it can be read, and its text is understood as the layer. -/
def States (files : Files) (path : String) (layer : Overlay) : Prop :=
  ∃ text, (files path).text = .ok text ∧ parse text = .ok layer

/-- A file fails to state a layer: it cannot be read, or its text is not understood. -/
inductive Fault (files : Files) (path : String) : Failure → Prop where
  | unread {reason : String} : (files path).text = .error reason →
      Fault files path (.config ("read " ++ path ++ ": " ++ reason))
  | misread {text : String} {e : Toml.ReadError} :
      (files path).text = .ok text → parse text = .error e →
      Fault files path (.config ("parse " ++ path ++ ": " ++ e.message))

/-- The layer of the global file, which may be missing. -/
inductive OfGlobal (files : Files) : Option String → Overlay → Prop where
  | nowhere : OfGlobal files none .empty
  | missing {path : String} : (files path).exist = false → OfGlobal files (some path) .empty
  | there {path : String} {layer : Overlay} : (files path).exist = true →
      States files path layer → OfGlobal files (some path) layer

/-- The layer of the file that is given for a run, if one is. -/
inductive OfGiven (files : Files) : Option String → Overlay → Prop where
  | nothing : OfGiven files none .empty
  | given {path : String} {layer : Overlay} :
      States files path layer → OfGiven files (some path) layer

theorem load_eq_ok_iff : load files path = .ok layer ↔ States files path layer := by
  rw [load, States]
  cases (files path).text with
  | error reason => simp
  | ok text => cases hparse : parse text <;> simp [hparse]

theorem load_eq_error_iff : load files path = .error f ↔ Fault files path f := by
  rw [load]
  constructor
  · intro h
    split at h
    · next reason hread =>
      cases h
      exact .unread hread
    · next text hread =>
      split at h
      · next e hparse =>
        cases h
        exact .misread hread hparse
      · cases h
  · intro h
    cases h with
    | unread hread => simp only [hread]
    | misread hread hparse => simp only [hread, hparse]

theorem loadIfThere_eq_ok_iff {globalPath : Option String} :
    loadIfThere files globalPath = .ok layer ↔ OfGlobal files globalPath layer := by
  cases globalPath with
  | none =>
    constructor
    · rintro ⟨⟩
      exact .nowhere
    · rintro ⟨⟩
      rfl
  | some path =>
    rw [loadIfThere]
    cases hexist : (files path).exist with
    | false =>
      rw [if_neg Bool.false_ne_true]
      constructor
      · rintro ⟨⟩
        exact .missing hexist
      · intro h
        cases h with
        | missing => rfl
        | there hthere => cases hexist.symm.trans hthere
    | true =>
      rw [if_pos rfl, load_eq_ok_iff]
      constructor
      · exact .there hexist
      · intro h
        cases h with
        | missing hmissing => cases hexist.symm.trans hmissing
        | there _ hstates => exact hstates

theorem loadIfThere_eq_error_iff {globalPath : Option String} :
    loadIfThere files globalPath = .error f ↔
      ∃ path, globalPath = some path ∧ (files path).exist = true ∧ Fault files path f := by
  cases globalPath with
  | none => simp [loadIfThere]
  | some path =>
    rw [loadIfThere]
    cases hexist : (files path).exist <;> simp [hexist, load_eq_error_iff]

theorem loadIfGiven_eq_ok_iff {localPath : Option String} :
    loadIfGiven files localPath = .ok layer ↔ OfGiven files localPath layer := by
  cases localPath with
  | none =>
    constructor
    · rintro ⟨⟩
      exact .nothing
    · rintro ⟨⟩
      rfl
  | some path =>
    rw [loadIfGiven, load_eq_ok_iff]
    constructor
    · exact .given
    · rintro ⟨⟩
      assumption

theorem loadIfGiven_eq_error_iff {localPath : Option String} :
    loadIfGiven files localPath = .error f ↔
      ∃ path, localPath = some path ∧ Fault files path f := by
  cases localPath with
  | none => simp [loadIfGiven]
  | some path => simp [loadIfGiven, load_eq_error_iff]

/-! ## Entries of a file -/

/-- Reading an entry states the setting of that name, or nothing. -/
theorem add_eq_ok {next : Overlay} {entry : String × Toml.Value} (h : layer.add entry = .ok next) :
    (entry.1 = "handlers" ∧ ∃ texts, next = { layer with handlers := some texts }) ∨
    (entry.1 = "max_depth" ∧ ∃ n, next = { layer with maxDepth := some n }) ∨
    (entry.1 = "id_field" ∧ ∃ text, next = { layer with idField := some text }) ∨
    (entry.1 ≠ "handlers" ∧ entry.1 ≠ "max_depth" ∧ entry.1 ≠ "id_field") ∧ next = layer := by
  rw [add] at h
  split at h
  · next hkey =>
    obtain ⟨texts, -, hnext⟩ := bind_eq_ok_iff.1 h
    cases hnext
    exact .inl ⟨hkey, texts, rfl⟩
  · next hkey =>
    obtain ⟨n, -, hnext⟩ := bind_eq_ok_iff.1 h
    cases hnext
    exact .inr (.inl ⟨hkey, n, rfl⟩)
  · next hkey =>
    obtain ⟨text, -, hnext⟩ := bind_eq_ok_iff.1 h
    cases hnext
    exact .inr (.inr (.inl ⟨hkey, text, rfl⟩))
  · next hhandlers hdepth hfield =>
    cases h
    exact .inr (.inr (.inr ⟨⟨hhandlers, hdepth, hfield⟩, rfl⟩))

/-- So each setting is stated then if it was before, or if its key is that of the entry. -/
theorem stated_of_add {next : Overlay} {entry : String × Toml.Value}
    (h : layer.add entry = .ok next) :
    (next.handlers ≠ none ↔ layer.handlers ≠ none ∨ entry.1 = "handlers") ∧
    (next.maxDepth ≠ none ↔ layer.maxDepth ≠ none ∨ entry.1 = "max_depth") ∧
    (next.idField ≠ none ↔ layer.idField ≠ none ∨ entry.1 = "id_field") := by
  rcases add_eq_ok h with ⟨hkey, _, rfl⟩ | ⟨hkey, _, rfl⟩ | ⟨hkey, _, rfl⟩ | ⟨hkey, rfl⟩ <;>
    simp [hkey]

/-- The layer that some layers make together: of each setting the value that is stated highest. -/
def together (layers : List Overlay) : Overlay := layers.foldl andThen .empty

end Overlay

/-! ## One setting in all layers -/

/-- One of the settings: its key in a file, what a layer states of it, and what it is among the
settings of a run. -/
structure Setting (β : Type) where
  key : String
  stated : Overlay → Option β
  value : Settings → β
  /-- Merging a layer changes a setting to what the layer states of it. -/
  merged : ∀ (s : Settings) (layer : Overlay),
    value (s.merge layer) = (stated layer).getD (value s)
  /-- Reading an entry states the setting if the key is that of the setting. -/
  added : ∀ {layer next : Overlay} {entry : String × Toml.Value}, layer.add entry = .ok next →
    (stated next ≠ none ↔ stated layer ≠ none ∨ entry.1 = key)
  unstated : stated .empty = none

namespace Setting

open Toml (Entries)

/-- The names of the handlers, as a whole. -/
def handlers : Setting (List String) where
  key := "handlers"
  stated := Overlay.handlers
  value := Settings.handlers
  merged _ _ := rfl
  added hadd := (Overlay.stated_of_add hadd).1
  unstated := rfl

/-- The deepest level that a field may stand at. -/
def maxDepth : Setting Nat where
  key := "max_depth"
  stated := Overlay.maxDepth
  value := Settings.maxDepth
  merged _ _ := rfl
  added hadd := (Overlay.stated_of_add hadd).2.1
  unstated := rfl

/-- The key field of records. -/
def idField : Setting String where
  key := "id_field"
  stated := Overlay.idField
  value := Settings.idField
  merged _ _ := rfl
  added hadd := (Overlay.stated_of_add hadd).2.2
  unstated := rfl

variable {β : Type} {setting : Setting β} {s t : Settings} {layer : Overlay}
  {layers lower higher : List Overlay} {v : β}

/-- The entries of a document state a setting if its key is among them. -/
theorem stated_of_foldlM {entries : Entries} {start : Overlay}
    (h : entries.foldlM Overlay.add start = .ok layer) :
    setting.stated layer ≠ none ↔
      setting.stated start ≠ none ∨ setting.key ∈ entries.map Prod.fst := by
  induction entries generalizing start with
  | nil =>
    cases h
    simp
  | cons entry entries ih =>
    rw [List.foldlM_cons, bind_eq_ok_iff] at h
    obtain ⟨next, hnext, hrest⟩ := h
    rw [ih hrest, setting.added hnext, List.map_cons, List.mem_cons, or_assoc,
      eq_comm (a := setting.key)]

/-- **A file states the settings whose keys it has**, whatever they are there, an empty list too. -/
theorem stated_of_parse {text : String} (h : Overlay.parse text = .ok layer) :
    ∃ entries, Toml.read? text = some entries ∧
      ∀ {β : Type} (setting : Setting β),
        setting.stated layer ≠ none ↔ setting.key ∈ entries.map Prod.fst := by
  rw [Overlay.parse, Toml.readAs] at h
  cases hread : Toml.read? text with
  | none =>
    rw [hread] at h
    cases h
  | some entries =>
    rw [hread] at h
    simp only [Overlay.ofEntries] at h
    cases hfold : entries.foldlM Overlay.add .empty with
    | error e =>
      rw [hfold] at h
      cases h
    | ok found =>
      rw [hfold] at h
      cases h
      refine ⟨entries, rfl, fun setting => ?_⟩
      rw [stated_of_foldlM hfold, setting.unstated]
      simp

/-- A value of a setting is in force: the highest layer that states the setting states it so, or no
layer states the setting and it is the default. -/
def InForce (setting : Setting β) (layers : List Overlay) (v : β) : Prop :=
  (∃ lower layer higher, layers = lower ++ layer :: higher ∧ setting.stated layer = some v ∧
    ∀ upper ∈ higher, setting.stated upper = none) ∨
  ((∀ layer ∈ layers, setting.stated layer = none) ∧ v = setting.value Settings.defaults)

/-- Layers that do not state a setting leave it as it is. -/
theorem value_foldl_of_unstated (h : ∀ upper ∈ higher, setting.stated upper = none) :
    setting.value (higher.foldl Settings.merge s) = setting.value s := by
  induction higher generalizing s with
  | nil => rfl
  | cons layer higher ih =>
    rw [List.forall_mem_cons] at h
    rw [List.foldl_cons, ih h.2, setting.merged, h.1]
    rfl

/-- What a setting was below does not matter for layers of which one states it. -/
theorem value_foldl_congr
    (h : setting.value s = setting.value t ∨ ∃ upper ∈ higher, setting.stated upper ≠ none) :
    setting.value (higher.foldl Settings.merge s)
      = setting.value (higher.foldl Settings.merge t) := by
  induction higher generalizing s t with
  | nil =>
    rcases h with h | ⟨upper, hupper, -⟩
    · exact h
    · cases hupper
  | cons layer higher ih =>
    rw [List.foldl_cons, List.foldl_cons]
    apply ih
    rw [setting.merged, setting.merged]
    cases hstated : setting.stated layer with
    | some v => exact .inl rfl
    | none =>
      rcases h with h | ⟨upper, hupper, hne⟩
      · exact .inl h
      · rcases List.mem_cons.1 hupper with rfl | hupper
        · exact absurd hstated hne
        · exact .inr ⟨upper, hupper, hne⟩

/-- **The value of the highest layer that states a setting is in force.** -/
theorem inForce_ofLayers (setting : Setting β) (layers : List Overlay) :
    setting.InForce layers (setting.value (layers.foldl Settings.merge .defaults)) := by
  induction layers using List.reverseRecOn with
  | nil => exact .inr ⟨nofun, rfl⟩
  | append_singleton layers layer ih =>
    rw [List.foldl_concat, setting.merged]
    cases hstated : setting.stated layer with
    | some v => exact .inl ⟨layers, layer, [], rfl, hstated, nofun⟩
    | none =>
      -- The new layer does not state the setting, so what was in force below stays so.
      rcases ih with ⟨lower, found, higher, rfl, hfound, hhigher⟩ | ⟨hnone, hdefault⟩
      · refine .inl ⟨lower, found, higher ++ [layer], ?_, hfound, ?_⟩
        · rw [List.append_assoc, List.cons_append]
        · exact List.forall_mem_append.2 ⟨hhigher, List.forall_mem_singleton.2 hstated⟩
      · exact .inr ⟨List.forall_mem_append.2 ⟨hnone, List.forall_mem_singleton.2 hstated⟩, hdefault⟩

end Setting

namespace Settings

variable {files : Files} {globalPath localPath : Option String} {env : Environment}
  {s : Settings} {f : Failure} {lower higher : List Overlay} {layer layer' : Overlay}

attribute [ext] Settings

/-- The settings that some layers make, the lowest first, on top of the defaults. -/
def ofLayers (layers : List Overlay) : Settings := layers.foldl merge defaults

/-- **Layers are merged one by one, or as one.** -/
theorem foldl_merge (base : Settings) (layers : List Overlay) :
    layers.foldl merge base = base.merge (Overlay.together layers) := by
  induction layers using List.reverseRecOn with
  | nil => rfl
  | append_singleton layers layer ih =>
    rw [Overlay.together, List.foldl_concat, List.foldl_concat, ih, merge_merge]
    rfl

/-- What a layer states of a setting does not matter for it where a higher layer states it. -/
theorem value_ofLayers_congr {β : Type} (setting : Setting β) (lower : List Overlay)
    (h : setting.stated layer' = setting.stated layer ∨
      ∃ upper ∈ higher, setting.stated upper ≠ none) :
    setting.value (ofLayers (lower ++ layer' :: higher))
      = setting.value (ofLayers (lower ++ layer :: higher)) := by
  rw [ofLayers, ofLayers, List.foldl_append, List.foldl_append, List.foldl_cons, List.foldl_cons]
  apply setting.value_foldl_congr
  rw [setting.merged, setting.merged]
  rcases h with hsame | hcovered
  · exact .inl (by rw [hsame])
  · exact .inr hcovered

/-- **What is covered does not matter**: layers that differ only in settings that higher layers
state make the same settings. -/
theorem ofLayers_congr
    (hhandlers : layer'.handlers = layer.handlers ∨ ∃ upper ∈ higher, upper.handlers ≠ none)
    (hdepth : layer'.maxDepth = layer.maxDepth ∨ ∃ upper ∈ higher, upper.maxDepth ≠ none)
    (hfield : layer'.idField = layer.idField ∨ ∃ upper ∈ higher, upper.idField ≠ none) :
    ofLayers (lower ++ layer' :: higher) = ofLayers (lower ++ layer :: higher) := by
  have heq := value_ofLayers_congr Setting.handlers lower hhandlers
  have heq' := value_ofLayers_congr Setting.maxDepth lower hdepth
  have heq'' := value_ofLayers_congr Setting.idField lower hfield
  exact Settings.ext heq heq' heq''

/-- **What is stated uncovered is in force.** -/
theorem value_ofLayers_of_stated {β : Type} (setting : Setting β) {v : β}
    (hlayer : setting.stated layer = some v)
    (hhigher : ∀ upper ∈ higher, setting.stated upper = none) :
    setting.value (ofLayers (lower ++ layer :: higher)) = v := by
  rw [ofLayers, List.foldl_append, List.foldl_cons, setting.value_foldl_of_unstated hhigher,
    setting.merged, hlayer]
  rfl

/-! ## Loading -/

/-- Settings are refused for their key field first, and then for their depth. -/
theorem validate_eq_error_iff : s.validate = .error f ↔
    Text.allBlank s.idField = true ∧ f = .config "id_field must not be empty" ∨
    Text.allBlank s.idField = false ∧ s.maxDepth = 0 ∧
      f = .config "max_depth must be at least 1" := by
  rw [validate]
  cases Text.allBlank s.idField with
  | true => simp [eq_comm]
  | false =>
    by_cases hzero : s.maxDepth = 0
    · simp [hzero, eq_comm]
    · simp [hzero]

/-- **Loading succeeds if both files state their layers, and what is in force is valid.** -/
theorem load_eq_ok_iff : load files globalPath localPath env = .ok s ↔
    ∃ global given, Overlay.OfGlobal files globalPath global ∧
      Overlay.OfGiven files localPath given ∧ s = ofLayers [global, given, env.overlay] ∧
      Text.allBlank s.idField = false ∧ 1 ≤ s.maxDepth := by
  rw [load, bind_eq_ok_iff]
  constructor
  · rintro ⟨global, hglobal, hrest⟩
    obtain ⟨given, hgiven, hrest⟩ := bind_eq_ok_iff.1 hrest
    obtain ⟨_, hvalid, hreturn⟩ := bind_eq_ok_iff.1 hrest
    cases hreturn
    exact ⟨global, given, Overlay.loadIfThere_eq_ok_iff.1 hglobal,
      Overlay.loadIfGiven_eq_ok_iff.1 hgiven, rfl, validate_eq_ok_iff.1 hvalid⟩
  · rintro ⟨global, given, hglobal, hgiven, rfl, hvalid⟩
    exact ⟨global, Overlay.loadIfThere_eq_ok_iff.2 hglobal,
      bind_eq_ok_iff.2 ⟨given, Overlay.loadIfGiven_eq_ok_iff.2 hgiven,
        bind_eq_ok_iff.2 ⟨(), validate_eq_ok_iff.2 hvalid, rfl⟩⟩⟩

/-- **Loading fails for the first file that states no layer, or for what is in force.** -/
theorem load_eq_error_iff : load files globalPath localPath env = .error f ↔
    (∃ path, globalPath = some path ∧ (files path).exist = true ∧ Overlay.Fault files path f) ∨
    (∃ global path, Overlay.OfGlobal files globalPath global ∧ localPath = some path ∧
      Overlay.Fault files path f) ∨
    ∃ global given, Overlay.OfGlobal files globalPath global ∧
      Overlay.OfGiven files localPath given ∧
      (ofLayers [global, given, env.overlay]).validate = .error f := by
  rw [load, bind_eq_error_iff, Overlay.loadIfThere_eq_error_iff]
  apply or_congr Iff.rfl
  constructor
  · rintro ⟨global, hglobal, hrest⟩
    rw [Overlay.loadIfThere_eq_ok_iff] at hglobal
    rcases bind_eq_error_iff.1 hrest with hgiven | ⟨given, hgiven, hrest⟩
    · obtain ⟨path, hpath, hfault⟩ := Overlay.loadIfGiven_eq_error_iff.1 hgiven
      exact .inl ⟨global, path, hglobal, hpath, hfault⟩
    · rcases bind_eq_error_iff.1 hrest with hvalid | ⟨_, -, hreturn⟩
      · exact .inr ⟨global, given, hglobal, Overlay.loadIfGiven_eq_ok_iff.1 hgiven, hvalid⟩
      · cases hreturn
  · rintro (⟨global, path, hglobal, hpath, hfault⟩ | ⟨global, given, hglobal, hgiven, hvalid⟩)
    · exact ⟨global, Overlay.loadIfThere_eq_ok_iff.2 hglobal, bind_eq_error_iff.2
        (.inl (Overlay.loadIfGiven_eq_error_iff.2 ⟨path, hpath, hfault⟩))⟩
    · exact ⟨global, Overlay.loadIfThere_eq_ok_iff.2 hglobal, bind_eq_error_iff.2
        (.inr ⟨given, Overlay.loadIfGiven_eq_ok_iff.2 hgiven, bind_eq_error_iff.2 (.inl hvalid)⟩)⟩

/-- An invalid key field does harm exactly where no higher layer states one. -/
theorem idField_covered {global given : Overlay} {id : String}
    (hglobal : Overlay.OfGlobal files globalPath global)
    (hgiven : Overlay.OfGiven files localPath given)
    (hlayers : [global, given, env.overlay] = lower ++ layer :: higher)
    (hlayer : layer.idField = some id) (hid : Text.allBlank id = true) :
    ((∀ upper ∈ higher, upper.idField = none) →
      load files globalPath localPath env = .error (.config "id_field must not be empty")) ∧
    ((∃ upper ∈ higher, upper.idField ≠ none) → ∀ other,
      ofLayers (lower ++ { layer with idField := other } :: higher)
        = ofLayers (lower ++ layer :: higher)) := by
  constructor
  · intro hhigher
    have hforce : (ofLayers (lower ++ layer :: higher)).idField = id :=
      value_ofLayers_of_stated Setting.idField hlayer hhigher
    rw [← hlayers] at hforce
    refine load_eq_error_iff.2 (.inr (.inr ⟨global, given, hglobal, hgiven, ?_⟩))
    exact validate_eq_error_iff.2 (.inl ⟨by rw [hforce, hid], rfl⟩)
  · intro hcovered other
    exact ofLayers_congr (.inl rfl) (.inl rfl) (.inr hcovered)

/-- A depth of no level does harm exactly where no higher layer states one. -/
theorem maxDepth_covered {global given : Overlay}
    (hglobal : Overlay.OfGlobal files globalPath global)
    (hgiven : Overlay.OfGiven files localPath given)
    (hlayers : [global, given, env.overlay] = lower ++ layer :: higher)
    (hlayer : layer.maxDepth = some 0) :
    ((∀ upper ∈ higher, upper.maxDepth = none) →
      ∃ detail, load files globalPath localPath env = .error (.config detail)) ∧
    ((∃ upper ∈ higher, upper.maxDepth ≠ none) → ∀ other,
      ofLayers (lower ++ { layer with maxDepth := other } :: higher)
        = ofLayers (lower ++ layer :: higher)) := by
  constructor
  · intro hhigher
    have hforce : (ofLayers (lower ++ layer :: higher)).maxDepth = 0 :=
      value_ofLayers_of_stated Setting.maxDepth hlayer hhigher
    rw [← hlayers] at hforce
    -- The key field is looked at first, so that one may be reported.
    have hinvalid : ∃ detail,
        (ofLayers [global, given, env.overlay]).validate = .error (.config detail) := by
      cases hid : Text.allBlank (ofLayers [global, given, env.overlay]).idField with
      | true => exact ⟨_, validate_eq_error_iff.2 (.inl ⟨hid, rfl⟩)⟩
      | false => exact ⟨_, validate_eq_error_iff.2 (.inr ⟨hid, hforce, rfl⟩)⟩
    obtain ⟨detail, hdetail⟩ := hinvalid
    exact ⟨detail, load_eq_error_iff.2 (.inr (.inr ⟨global, given, hglobal, hgiven, hdetail⟩))⟩
  · intro hcovered other
    exact ofLayers_congr (.inl rfl) (.inr hcovered) (.inl rfl)

/-- **The precedence of the layers.**  Loading succeeds exactly if the global file, where there is
one, and the file given for the run state their layers and what is in force names a key field and
allows a level; then it gives what is in force.  Otherwise it fails by the settings: for the first
file that states no layer, whatever the higher layers state, or else for what is in force.  In force
is of each setting what the highest layer states that states it, the handlers as a whole, and the
default where none does; a file states the settings whose keys it has.  Layers are merged one by one
or as one.  A value that makes settings invalid ends the loading where no higher layer states the
setting, and makes no difference where one does. -/
theorem load_layers (files : Files) (globalPath localPath : Option String) (env : Environment) :
    (∀ s, load files globalPath localPath env = .ok s ↔
      ∃ global given, Overlay.OfGlobal files globalPath global ∧
        Overlay.OfGiven files localPath given ∧ s = ofLayers [global, given, env.overlay] ∧
        Text.allBlank s.idField = false ∧ 1 ≤ s.maxDepth) ∧
    ((∀ f, load files globalPath localPath env = .error f ↔
      (∃ path, globalPath = some path ∧ (files path).exist = true ∧ Overlay.Fault files path f) ∨
      (∃ global path, Overlay.OfGlobal files globalPath global ∧ localPath = some path ∧
        Overlay.Fault files path f) ∨
      ∃ global given, Overlay.OfGlobal files globalPath global ∧
        Overlay.OfGiven files localPath given ∧
        (ofLayers [global, given, env.overlay]).validate = .error f) ∧
      ∀ f, load files globalPath localPath env = .error f → ∃ detail, f = .config detail) ∧
    (∀ layers : List Overlay, Setting.handlers.InForce layers (ofLayers layers).handlers ∧
      Setting.maxDepth.InForce layers (ofLayers layers).maxDepth ∧
      Setting.idField.InForce layers (ofLayers layers).idField) ∧
    (∀ text layer, Overlay.parse text = .ok layer → ∃ entries, Toml.read? text = some entries ∧
      (layer.handlers ≠ none ↔ "handlers" ∈ entries.map Prod.fst) ∧
      (layer.maxDepth ≠ none ↔ "max_depth" ∈ entries.map Prod.fst) ∧
      (layer.idField ≠ none ↔ "id_field" ∈ entries.map Prod.fst)) ∧
    (∀ (base : Settings) (layers : List Overlay),
      layers.foldl merge base = base.merge (layers.foldl Overlay.andThen .empty)) ∧
    ∀ global given lower layer higher, Overlay.OfGlobal files globalPath global →
      Overlay.OfGiven files localPath given →
      [global, given, env.overlay] = lower ++ layer :: higher →
      (∀ id, layer.idField = some id → Text.allBlank id = true →
        ((∀ upper ∈ higher, upper.idField = none) →
          load files globalPath localPath env = .error (.config "id_field must not be empty")) ∧
        ((∃ upper ∈ higher, upper.idField ≠ none) → ∀ other,
          ofLayers (lower ++ { layer with idField := other } :: higher)
            = ofLayers (lower ++ layer :: higher))) ∧
      (layer.maxDepth = some 0 →
        ((∀ upper ∈ higher, upper.maxDepth = none) →
          ∃ detail, load files globalPath localPath env = .error (.config detail)) ∧
        ((∃ upper ∈ higher, upper.maxDepth ≠ none) → ∀ other,
          ofLayers (lower ++ { layer with maxDepth := other } :: higher)
            = ofLayers (lower ++ layer :: higher))) := by
  refine ⟨fun s => load_eq_ok_iff, ⟨fun f => load_eq_error_iff, configOnly_load _ _ _ _⟩, ?_, ?_,
    foldl_merge, ?_⟩
  · intro layers
    exact ⟨Setting.handlers.inForce_ofLayers layers, Setting.maxDepth.inForce_ofLayers layers,
      Setting.idField.inForce_ofLayers layers⟩
  · intro text layer hparse
    obtain ⟨entries, hread, hstated⟩ := Setting.stated_of_parse hparse
    exact ⟨entries, hread, hstated Setting.handlers, hstated Setting.maxDepth,
      hstated Setting.idField⟩
  · intro global given lower layer higher hglobal hgiven hlayers
    exact ⟨fun id hlayer hid => idField_covered hglobal hgiven hlayers hlayer hid,
      fun hlayer => maxDepth_covered hglobal hgiven hlayers hlayer⟩

/-- A global file whose depth is of no use, a file that covers the depth, and one that is not
understood. -/
def layeredFiles : Files
  | "global.toml" => .file "handlers = []\nmax_depth = 0\n".toUTF8
  | "given.toml" => .file "max_depth = 1\n".toUTF8
  | "deep.toml" => .file "max_depth = 'deep'\n".toUTF8
  | _ => .absent Entry.notFound

theorem states_of_parse {files : Files} {path text : String} {layer : Overlay}
    (hfile : files path = .file text.toUTF8) (hparse : (Overlay.parse text).toOption = some layer) :
    Overlay.States files path layer :=
  ⟨text, by rw [hfile, Entry.text_file_toUTF8], eq_ok_of_toOption hparse⟩

/-- The depth of the global file does no harm where the given file covers it, and ends the loading
where nothing does; so does a given file that is not understood, whatever the variables state. -/
theorem load_layers_covered :
    load layeredFiles (some "global.toml") (some "given.toml") [("TYPETREE_ID_FIELD", "key")]
      = .ok ⟨[], 1, "key"⟩ ∧
    (∃ detail, load layeredFiles (some "global.toml") none [("TYPETREE_ID_FIELD", "key")]
      = .error (.config detail)) ∧
    ∃ detail, load layeredFiles none (some "deep.toml") [("TYPETREE_MAX_DEPTH", "1")]
      = .error (.config detail) := by
  have hglobal : Overlay.OfGlobal layeredFiles (some "global.toml") ⟨some [], some 0, none⟩ :=
    .there rfl (states_of_parse rfl (by decide +kernel))
  have hgiven : Overlay.OfGiven layeredFiles (some "given.toml") ⟨none, some 1, none⟩ :=
    .given (states_of_parse rfl (by decide +kernel))
  have henv : Environment.overlay [("TYPETREE_ID_FIELD", "key")] = ⟨none, none, some "key"⟩ := by
    decide +kernel
  have hmisread : ∃ e, Overlay.parse "max_depth = 'deep'\n" = .error e := by
    cases hparse : Overlay.parse "max_depth = 'deep'\n" with
    | error e => exact ⟨e, rfl⟩
    | ok layer =>
      have hnone : (Overlay.parse "max_depth = 'deep'\n").toOption = none := by decide +kernel
      rw [hparse] at hnone
      cases hnone
  obtain ⟨e, hmisread⟩ := hmisread
  obtain ⟨hok, -⟩ := load_layers layeredFiles (some "global.toml") (some "given.toml")
    [("TYPETREE_ID_FIELD", "key")]
  obtain ⟨-, -, -, -, -, hharm⟩ := load_layers layeredFiles (some "global.toml") none
    [("TYPETREE_ID_FIELD", "key")]
  obtain ⟨-, ⟨hfails, -⟩, -⟩ := load_layers layeredFiles none (some "deep.toml")
    [("TYPETREE_MAX_DEPTH", "1")]
  refine ⟨(hok _).2 ⟨_, _, hglobal, hgiven, ?_, by decide, by decide⟩, ?_, _, (hfails _).2
    (.inr (.inl ⟨.empty, "deep.toml", .nowhere, rfl,
      .misread (Entry.text_file_toUTF8 _) hmisread⟩))⟩
  · rw [henv]
    rfl
  · have hcovered := hharm ⟨some [], some 0, none⟩ .empty [] ⟨some [], some 0, none⟩
      [.empty, ⟨none, none, some "key"⟩] hglobal .nothing
    rw [henv] at hcovered
    refine ((hcovered rfl).2 rfl).1 ?_
    decide

end Settings

end FieldTree
