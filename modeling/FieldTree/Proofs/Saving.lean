/-
# Settings survive saving and loading

The text of a settings file states each of the settings that it was made from, so it counts for
all of them, whatever lies below it.  Loaded from a file, with no global file and no variables
beside it, it gives back the same settings.

* `Settings.parse_toToml` : the text of settings states each of them;
* `Settings.load_of_layer` : what a file states in full is loaded as it is, if it is valid;
* `Settings.save_load` : settings are saved and loaded without a change.
-/
import FieldTree.Proofs.Documents
import FieldTree.Settings.Load

namespace FieldTree

open Toml (Entries Line Value)

/-! ## Files of text -/

/-- A file with the encoded characters of a text has that text. -/
theorem Entry.text_file_toUTF8 (s : String) : (Entry.file s.toUTF8).text = .ok s := by
  have hdecode : String.fromUTF8? s.toUTF8 = some s := by
    rw [String.fromUTF8?, String.toUTF8_eq_toByteArray, dif_pos s.isValidUTF8]
    rfl
  rw [Entry.text, hdecode]

/-! ## Environments that state nothing -/

namespace Environment

/-- No variable's name starts with `TYPETREE_`, in any case. -/
def Silent (env : Environment) : Prop :=
  ∀ entry ∈ env, ¬ namePrefix.toList <+: (Text.lower entry.1).toList

variable {env : Environment}

theorem stated_eq_nil (h : env.Silent) (key : String) : env.stated key = [] := by
  rw [stated, List.filterMap_eq_nil_iff]
  intro entry hentry
  have hplace : place? entry.1 = none :=
    if_neg fun hprefix => h entry hentry (List.isPrefixOf_iff_prefix.1 hprefix)
  rw [hplace]

/-- An environment without variables for settings states none. -/
theorem overlay_eq_empty (h : env.Silent) : env.overlay = .empty := by
  have hsetting : ∀ key, env.setting? key = none := by
    intro key
    rw [setting?, stated_eq_nil h]
    rfl
  have hlist : env.list? "handlers" = none := by
    rw [list?, hsetting, gathered, stated_eq_nil h]
    rfl
  rw [overlay, hlist, hsetting, hsetting]
  rfl

end Environment

/-! ## What the text of settings states -/

namespace Overlay

/-- The layer that states all settings. -/
def ofSettings (s : Settings) : Overlay := ⟨some s.handlers, some s.maxDepth, some s.idField⟩

theorem mapM_asString (texts : List String) :
    (texts.map Value.string).mapM Value.asString = .ok texts := by
  induction texts with
  | nil => rfl
  | cons s texts ih =>
    rw [List.map_cons, List.mapM_cons, ih]
    rfl

theorem add_handlers (layer : Overlay) (texts : List String) :
    layer.add ("handlers", .array (texts.map .string))
      = .ok { layer with handlers := some texts } := by
  have hfit : (Value.array (texts.map .string)).asSequence Value.asString = .ok texts :=
    mapM_asString texts
  simp only [add, hfit]
  rfl

theorem add_maxDepth (layer : Overlay) (n : Nat) :
    layer.add ("max_depth", .integer n) = .ok { layer with maxDepth := some n } := by
  have hfit : (Value.integer n).asNatural = .ok n := by
    rw [Value.asNatural, if_pos (Int.natCast_nonneg n), Int.toNat_natCast]
  simp only [add, hfit]
  rfl

theorem add_idField (layer : Overlay) (text : String) :
    layer.add ("id_field", .string text) = .ok { layer with idField := some text } := rfl

end Overlay

namespace Settings

/-- The entries of settings, in the order in which they are written. -/
def entries (s : Settings) : Entries :=
  [("handlers", .array (s.handlers.map .string)), ("max_depth", .integer s.maxDepth),
    ("id_field", .string s.idField)]

/-- The entries of settings state each of them. -/
theorem ofEntries_entries (s : Settings) :
    Overlay.ofEntries s.entries = .ok (.ofSettings s) := by
  simp only [Overlay.ofEntries, entries, List.foldlM_cons, List.foldlM_nil, Overlay.add_handlers,
    Overlay.add_maxDepth, Overlay.add_idField, bind, Except.bind]
  rfl

/-- The lines in which settings are written, if their depth is in range. -/
def lines (s : Settings) (h : s.maxDepth ≤ greatestNumber) : List Line :=
  have hrange : (s.maxDepth : Int) ≤ Toml.greatestInteger := Int.ofNat_le.2 h
  [⟨"handlers", _, _, by decide, Toml.readsBack_writeStrings _ s.handlers⟩,
   ⟨"max_depth", _, _, by decide, Toml.readsBack_digits _ hrange⟩,
   ⟨"id_field", _, _, by decide, Toml.readsBack_writeString _ s.idField⟩]

/-- **The text of settings states each of them.** -/
theorem parse_toToml {s : Settings} (h : s.maxDepth ≤ greatestNumber) :
    ∃ text, s.toToml = .ok text ∧ Overlay.parse text = .ok (.ofSettings s) := by
  refine ⟨String.ofList ((s.lines h).flatMap Line.text), ?_, ?_⟩
  · rw [toToml, if_neg (Nat.not_lt.2 h)]
    simp [lines, Line.text]
  · have hread : Toml.read? (String.ofList ((s.lines h).flatMap Line.text)) = some s.entries :=
      Toml.read?_lines (by simp [lines])
    rw [Overlay.parse, Toml.readAs, hread]
    simp only [ofEntries_entries]
    rfl

/-! ## Loading -/

/-- A layer that states all settings counts for all of them. -/
theorem merge_ofSettings (base s : Settings) : base.merge (.ofSettings s) = s := rfl

/-- Settings are valid if they name a key field and allow a level. -/
theorem validate_eq_ok_iff {s : Settings} :
    s.validate = .ok () ↔ Text.allBlank s.idField = false ∧ 1 ≤ s.maxDepth := by
  unfold validate
  split
  · next hblank => simp [hblank]
  · next hblank =>
    split
    · next hzero => simp [hzero]
    · next hzero => simp [hblank, Nat.one_le_iff_ne_zero, hzero]

/-- What a file states in full is loaded as it is, or refused for what makes it invalid. -/
theorem load_of_layer {files : Files} {globalPath : Option String} {path : String}
    {env : Environment} {s : Settings} (hglobal : ∀ p ∈ globalPath, (files p).exist = false)
    (hfile : Overlay.load files path = .ok (.ofSettings s)) (henv : env.Silent) :
    load files globalPath (some path) env = s.validate.map fun _ => s := by
  have hmissing : Overlay.loadIfThere files globalPath = .ok .empty := by
    cases globalPath with
    | none => rfl
    | some p => exact if_neg (Bool.eq_false_iff.1 (hglobal p rfl))
  have hgiven : Overlay.loadIfGiven files (some path) = .ok (.ofSettings s) := hfile
  rw [load, hmissing, hgiven, Environment.overlay_eq_empty henv]
  change (do s.validate; return s) = _
  cases s.validate <;> rfl

/-- **Settings are saved and loaded without a change.**  Their text states each of them, unless
the depth is too great to be written; so it counts for all of them on top of any others, and a
file with it, with no global file and no variables beside it, is loaded as the settings if they
are valid. -/
theorem save_load (s : Settings) :
    (s.maxDepth ≤ 0x7fffffffffffffff → ∃ text, s.toToml = .ok text ∧
      Overlay.parse text = .ok ⟨some s.handlers, some s.maxDepth, some s.idField⟩ ∧
      (∀ base : Settings,
        base.merge ⟨some s.handlers, some s.maxDepth, some s.idField⟩ = s) ∧
      ∀ (files : Files) (globalPath : Option String) (path : String) (env : Environment),
        files path = .file text.toUTF8 → (∀ p ∈ globalPath, (files p).exist = false) →
        env.Silent → s.validate = .ok () → load files globalPath (some path) env = .ok s) ∧
    (0x7fffffffffffffff < s.maxDepth → ∃ detail, s.toToml = .error (.config detail)) ∧
    (s.validate = .ok () ↔ Text.allBlank s.idField = false ∧ 1 ≤ s.maxDepth) := by
  refine ⟨?_, ?_, validate_eq_ok_iff⟩
  · intro hdepth
    obtain ⟨text, htext, hparse⟩ := parse_toToml hdepth
    refine ⟨text, htext, hparse, fun base => merge_ofSettings base s, ?_⟩
    intro files globalPath path env hfile hglobal henv hvalid
    have hload : Overlay.load files path = .ok (.ofSettings s) := by
      rw [Overlay.load, hfile, Entry.text_file_toUTF8]
      simp only [hparse]
    rw [load_of_layer hglobal hload henv, hvalid]
    rfl
  · intro hdepth
    exact ⟨_, if_pos hdepth⟩

/-- Quotation marks, apostrophes, line ends and control characters come back from a file beside
which nothing is stated; one level more than can be written is refused. -/
theorem save_load_quotes :
    (∃ text, toToml ⟨["'''\"\"\"\\", "\n\r\x7f", ""], 0x7fffffffffffffff, "\"'"⟩ = .ok text ∧
      load (fun path => if path = "settings.toml" then .file text.toUTF8 else .absent "missing")
        (some "global.toml") (some "settings.toml") [("HOME", "/home")]
        = .ok ⟨["'''\"\"\"\\", "\n\r\x7f", ""], 0x7fffffffffffffff, "\"'"⟩) ∧
    ∃ detail, toToml ⟨[], 0x8000000000000000, "id"⟩ = .error (.config detail) := by
  refine ⟨?_, (save_load ⟨[], 0x8000000000000000, "id"⟩).2.1 (by decide)⟩
  obtain ⟨text, htext, -, -, hload⟩ :=
    (save_load ⟨["'''\"\"\"\\", "\n\r\x7f", ""], 0x7fffffffffffffff, "\"'"⟩).1 (by decide)
  have henv : Environment.Silent [("HOME", "/home")] := by
    intro entry hentry
    rw [List.mem_singleton] at hentry
    rw [hentry]
    decide +kernel
  refine ⟨text, htext, hload _ _ _ _ (if_pos rfl) ?_ henv
    (validate_eq_ok_iff.2 ⟨by decide, by decide⟩)⟩
  intro p hp
  cases hp
  rw [if_neg (by decide)]
  rfl

end Settings

end FieldTree
