/-
# The stages of a call for a tree

The commands that ask for a tree go through the same stages: the settings are loaded, the schema
file has to be there and to be read, a root type is chosen and has to stand for something, the names
of the handlers have to be known, and the tree has to end within the limit.  The first stage that
fails decides about the failure and the exit code.

* `Settings.configOnly_load` : settings fail in one way only;
* `Schema.load_eq_error_iff` : the ways in which a schema file fails, in order;
* `Handler.chain_eq_error_iff` : the first unknown name of a handler is reported;
* `CommandLine.Fails`, `CommandLine.Builds` : the stages, and what comes out of them;
* `CommandLine.fieldTree_eq_ok_iff`, `CommandLine.fieldTree_eq_error_iff` : a call succeeds if no
  stage fails, and otherwise fails as the first one that does.
-/
import FieldTree.CommandLine.Run
import FieldTree.Proofs.Dependence
import FieldTree.Proofs.Faults
import FieldTree.Proofs.HandlerNames

namespace FieldTree

section

variable {α β ε : Type} {x : Except ε α} {f : α → Except ε β}

/-- A sequence succeeds if both parts do. -/
theorem bind_eq_ok_iff {y : β} : (x >>= f) = .ok y ↔ ∃ a, x = .ok a ∧ f a = .ok y := by
  cases x with
  | ok a =>
    constructor
    · intro h
      exact ⟨a, rfl, h⟩
    · rintro ⟨_, ⟨⟩, h⟩
      exact h
  | error e =>
    constructor
    · rintro ⟨⟩
    · rintro ⟨_, ⟨⟩, _⟩

/-- A sequence fails as its first part, or as its second part on the value of the first. -/
theorem bind_eq_error_iff {e : ε} :
    (x >>= f) = .error e ↔ x = .error e ∨ ∃ a, x = .ok a ∧ f a = .error e := by
  cases x with
  | ok a =>
    constructor
    · intro h
      exact Or.inr ⟨a, rfl, h⟩
    · rintro (⟨⟨⟩⟩ | ⟨_, ⟨⟩, h⟩)
      exact h
  | error e' =>
    constructor
    · rintro ⟨⟩
      exact Or.inl rfl
    · rintro (⟨⟨⟩⟩ | ⟨_, ⟨⟩, _⟩)
      rfl

theorem eq_ok_of_toOption {a : α} (h : x.toOption = some a) : x = .ok a := by
  cases x with
  | error e => cases h
  | ok b => rw [Option.some.inj h]

end

namespace Failure

/-- Whether a failure is one inside the library, or of a part of the input whose place is not
told. -/
def isInternal : Failure → Bool
  | nodeNotFound _ | endless _ | invalidTypeExpr .. => true
  | _ => false

theorem exitCode_ne_software {f : Failure} (h : f.isInternal = false) :
    f.exitCode ≠ ExitCode.software := by
  cases f <;> simp_all [isInternal, exitCode, ExitCode.software, ExitCode.data, ExitCode.config,
    ExitCode.usage, ExitCode.io, ExitCode.noInput]

end Failure

/-! ## Settings -/

section

variable {α β : Type}

/-- Whether a computation fails, if at all, by a fault of the settings. -/
def ConfigOnly (r : Except Failure α) : Prop :=
  ∀ f, r = .error f → ∃ detail, f = .config detail

theorem configOnly_ok (value : α) : ConfigOnly (.ok value) := by
  rintro f ⟨⟩

theorem configOnly_error (detail : String) :
    ConfigOnly (.error (.config detail) : Except Failure α) := by
  rintro f ⟨⟩
  exact ⟨detail, rfl⟩

/-- A sequence fails by the settings only if both parts do. -/
theorem ConfigOnly.bind {x : Except Failure α} {g : α → Except Failure β} (hx : ConfigOnly x)
    (hg : ∀ value, ConfigOnly (g value)) : ConfigOnly (x >>= g) := by
  intro f h
  rcases bind_eq_error_iff.1 h with h | ⟨value, -, h⟩
  · exact hx f h
  · exact hg value f h

end

namespace Overlay

theorem configOnly_load (files : Files) (path : String) : ConfigOnly (load files path) := by
  rw [load]
  split
  · exact configOnly_error _
  · split
    · exact configOnly_error _
    · exact configOnly_ok _

theorem configOnly_loadIfThere (files : Files) (path : Option String) :
    ConfigOnly (loadIfThere files path) := by
  cases path with
  | none => exact configOnly_ok _
  | some path =>
    rw [loadIfThere]
    split
    · exact configOnly_load files path
    · exact configOnly_ok _

theorem configOnly_loadIfGiven (files : Files) (path : Option String) :
    ConfigOnly (loadIfGiven files path) := by
  cases path with
  | none => exact configOnly_ok _
  | some path => exact configOnly_load files path

end Overlay

namespace Settings

theorem configOnly_validate (s : Settings) : ConfigOnly s.validate := by
  rw [validate]
  split
  · exact configOnly_error _
  · split
    · exact configOnly_error _
    · exact configOnly_ok _

theorem configOnly_toToml (s : Settings) : ConfigOnly s.toToml := by
  rw [toToml]
  split
  · exact configOnly_error _
  · exact configOnly_ok _

/-- **Loading settings fails in one way only.** -/
theorem configOnly_load (files : Files) (globalPath localPath : Option String)
    (env : Environment) : ConfigOnly (load files globalPath localPath env) := by
  refine (Overlay.configOnly_loadIfThere files globalPath).bind fun global => ?_
  refine (Overlay.configOnly_loadIfGiven files localPath).bind fun given => ?_
  exact (configOnly_validate _).bind fun _ => configOnly_ok _

end Settings

/-! ## Schemas -/

theorem Entry.exist_of_isFile {e : Entry} (h : e.isFile = true) : e.exist = true := by
  cases e <;> first | rfl | cases h

namespace Schema

variable {files : Files} {path : String} {s : Schema} {f : Failure}

/-- A text that states no schema fails with its origin. -/
theorem exists_schema_of_parse_eq_error {text origin : String}
    (h : parse text origin = .error f) : ∃ detail, f = .schema origin detail := by
  rw [parse] at h
  split at h
  · exact ⟨_, (Except.error.inj h).symm⟩
  · obtain ⟨_, _, _, _, detail, -, -, -, hf⟩ := SchemaFile.resolve_eq_error_iff.1 h
    exact ⟨detail, hf⟩

theorem load_of_absent (h : (files path).exist = false) :
    load files path = .error (.fileNotFound path) := by
  show (if !(files path).exist then _ else _) = _
  rw [h]
  rfl

theorem load_of_not_isFile (hexist : (files path).exist = true)
    (h : (files path).isFile = false) : load files path = .error (.schema path "not a file") := by
  show (if !(files path).exist then _ else if !(files path).isFile then _ else _) = _
  rw [hexist, h]
  rfl

theorem load_of_isFile (h : (files path).isFile = true) :
    load files path = match (files path).text with
      | .error _ => .error (.io ("read schema " ++ path))
      | .ok text => parse text path := by
  have hexist := Entry.exist_of_isFile h
  show (if !(files path).exist then _ else if !(files path).isFile then _ else _) = _
  rw [hexist, h]
  rfl

/-- Whether a schema is read from a file: it is a file, and its text states the schema. -/
structure ReadFrom (s : Schema) (files : Files) (path : String) : Prop where
  isFile : (files path).isFile = true
  parsed : ∃ text, (files path).text = .ok text ∧ parse text path = .ok s

theorem load_eq_ok_iff : load files path = .ok s ↔ s.ReadFrom files path := by
  constructor
  · intro h
    cases hexist : (files path).exist with
    | false => rw [load_of_absent hexist] at h; cases h
    | true =>
      cases hfile : (files path).isFile with
      | false => rw [load_of_not_isFile hexist hfile] at h; cases h
      | true =>
        rw [load_of_isFile hfile] at h
        cases htext : (files path).text with
        | error reason => rw [htext] at h; cases h
        | ok text =>
          rw [htext] at h
          exact ⟨hfile, text, htext, h⟩
  · rintro ⟨hfile, text, htext, hparse⟩
    rw [load_of_isFile hfile, htext]
    exact hparse

/-- How a schema file cannot be used: the exit code, and the failure. -/
inductive Unusable (files : Files) (path : String) : Nat → Failure → Prop where
  | absent (h : (files path).exist = false) : Unusable files path 66 (.fileNotFound path)
  | notFile (hexist : (files path).exist = true) (h : (files path).isFile = false) :
      Unusable files path 65 (.schema path "not a file")
  | unreadable {reason : String} (hfile : (files path).isFile = true)
      (h : (files path).text = .error reason) :
      Unusable files path 74 (.io ("read schema " ++ path))
  | malformed {text detail : String} (hfile : (files path).isFile = true)
      (htext : (files path).text = .ok text) (h : parse text path = .error (.schema path detail)) :
      Unusable files path 65 (.schema path detail)

theorem Unusable.not_isInternal {code : Nat} (h : Unusable files path code f) :
    f.isInternal = false := by
  cases h <;> rfl

/-- **A schema file fails to be there, to be a file, to be readable or to state a schema, in this
order.** -/
theorem load_eq_error_iff : load files path = .error f ↔ ∃ code, Unusable files path code f := by
  constructor
  · intro h
    cases hexist : (files path).exist with
    | false =>
      rw [load_of_absent hexist] at h
      cases h
      exact ⟨66, .absent hexist⟩
    | true =>
      cases hfile : (files path).isFile with
      | false =>
        rw [load_of_not_isFile hexist hfile] at h
        cases h
        exact ⟨65, .notFile hexist hfile⟩
      | true =>
        rw [load_of_isFile hfile] at h
        cases htext : (files path).text with
        | error reason =>
          rw [htext] at h
          cases h
          exact ⟨74, .unreadable hfile htext⟩
        | ok text =>
          rw [htext] at h
          obtain ⟨detail, rfl⟩ := exists_schema_of_parse_eq_error h
          exact ⟨65, .malformed hfile htext h⟩
  · rintro ⟨code, h⟩
    cases h with
    | absent hexist => exact load_of_absent hexist
    | notFile hexist hfile => exact load_of_not_isFile hexist hfile
    | unreadable hfile htext => rw [load_of_isFile hfile, htext]
    | malformed hfile htext hparse => rw [load_of_isFile hfile, htext]; exact hparse

end Schema

/-! ## Handlers -/

namespace Handler

variable {names : List String}

/-- Some names give the handlers that have them, one by one. -/
theorem chain_eq_ok_iff {handlers : List Handler} :
    chain names = .ok handlers ↔ List.Forall₂ IsNamed names handlers := by
  rw [chain, mapM_eq_ok_iff_forall₂]
  simp only [named_eq_ok_iff]

/-- **The first name of no handler is reported.** -/
theorem chain_eq_error_iff {f : Failure} :
    chain names = .error f ↔ ∃ before name after, names = before ++ name :: after ∧
      (∀ earlier ∈ before, IsKnown earlier) ∧ ¬ IsKnown name ∧
      ∃ plain, Spells name plain ∧ f = .unknownHandler plain := by
  rw [chain, mapM_eq_error_iff]
  simp only [exists_named_eq_ok_iff, named_eq_error_iff]

end Handler

/-! ## Trees -/

namespace Decomposition

variable {p : Decomposition} {root : Node} {n : Nat}

/-- Whether a chain of more steps than a limit allows leads down from a root. -/
def Exceeds (p : Decomposition) (root : Node) (n : Nat) : Prop :=
  ∃ steps : List Node, steps.length = n + 1 ∧
    (root :: steps).IsChain fun x y => y ∈ p.offspring x

/-- The first path of a number of steps, in pre-order, below whose end something stands. -/
def FirstDeep (p : Decomposition) (root : Node) (n : Nat) (nodes : List Node) : Prop :=
  (Rose.levelPaths p.offspring n root).find? (Rose.goesOn p.offspring) = some nodes

theorem exceeds_iff : p.Exceeds root n ↔ ∃ nodes, p.FirstDeep root n nodes := by
  rw [Exceeds, ← Rose.exists_unfold_eq_error_iff]
  simp only [Rose.unfold_eq_error, FirstDeep]

/-- Within its limit a decomposition gives the whole unfolding of the root. -/
theorem tree_outcome_eq_ok_iff (hp : p.maxDepth = some n) {a : Arena Node} :
    (p.tree root).outcome = .ok a ↔
      ¬ p.Exceeds root n ∧ ∃ t : Rose Node, t.value = root ∧ t.Unfolds p.offspring ∧
        a = .ofTree 0 t := by
  have hlevels : p.levels = n := by rw [levels, hp]; rfl
  rw [tree_eq_ok, hlevels, exceeds_iff]
  simp only [FirstDeep, ← Rose.unfold_eq_error]
  constructor
  · rintro ⟨t, ht, rfl⟩
    obtain ⟨hvalue, hunfolds, -⟩ := Rose.unfold_eq_ok.1 ht
    refine ⟨?_, t, hvalue, hunfolds, rfl⟩
    rintro ⟨nodes, herror⟩
    rw [ht] at herror
    cases herror
  · rintro ⟨hwithin, t, hvalue, hunfolds, rfl⟩
    cases hu : Rose.unfold p.offspring n root with
    | error nodes => exact absurd ⟨nodes, hu⟩ hwithin
    | ok u =>
      -- What is computed is an unfolding of the root too, and there is only one.
      obtain ⟨hvalue', hunfolds', -⟩ := Rose.unfold_eq_ok.1 hu
      exact ⟨u, rfl, by rw [hunfolds.unique hunfolds' (hvalue'.trans hvalue.symm)]⟩

/-- Beyond its limit a decomposition fails on the first path that is too deep. -/
theorem tree_outcome_eq_error_iff (hp : p.maxDepth = some n) {f : Failure} :
    (p.tree root).outcome = .error f ↔
      ∃ nodes, p.FirstDeep root n nodes ∧ f = .depthExceeded (namesText nodes) n := by
  have hlevels : p.levels = n := by rw [levels, hp]; rfl
  have hdeep : ∀ path, p.tooDeep path = .depthExceeded path n := by
    intro path
    rw [tooDeep, hp]
  rw [tree_eq_error, hlevels]
  simp only [FirstDeep, Rose.unfold_eq_error, hdeep]

end Decomposition

namespace Settings

open Decomposition (ofSchema namesText)

variable {settings : Settings} {s : Schema} {r : String} {f : Failure} {a : Arena Node}

/-- The tree of a root type that stands for something is that of the handlers, if these are
known. -/
theorem tree_of_symbols (hs : s.symbols r ≠ []) :
    settings.tree s.introspection r = (Handler.chain settings.handlers).bind fun handlers =>
      ((ofSchema s handlers (some settings.maxDepth)).tree (.root r)).outcome := by
  have hsome : ¬ (s.introspection.symbols r).isEmpty = true := by
    rw [List.isEmpty_iff]
    exact hs
  rw [tree, if_neg hsome, decomposition]
  cases Handler.chain settings.handlers <;> rfl

theorem tree_of_symbols_eq_nil (hs : s.symbols r = []) :
    settings.tree s.introspection r = .error (.unknownRootType r) := by
  have hnone : (s.introspection.symbols r).isEmpty = true := by
    rw [List.isEmpty_iff]
    exact hs
  rw [tree, if_pos hnone]

theorem tree_eq_ok_iff : settings.tree s.introspection r = .ok a ↔
    s.symbols r ≠ [] ∧ ∃ handlers, Handler.chain settings.handlers = .ok handlers ∧
      ((ofSchema s handlers (some settings.maxDepth)).tree (.root r)).outcome = .ok a := by
  by_cases hs : s.symbols r = []
  · rw [tree_of_symbols_eq_nil hs]
    exact ⟨nofun, fun h => absurd hs h.1⟩
  · rw [tree_of_symbols hs]
    exact bind_eq_ok_iff.trans (and_iff_right hs).symm

theorem tree_eq_error_iff : settings.tree s.introspection r = .error f ↔
    s.symbols r = [] ∧ f = .unknownRootType r ∨
    s.symbols r ≠ [] ∧ (Handler.chain settings.handlers = .error f ∨
      ∃ handlers, Handler.chain settings.handlers = .ok handlers ∧
        ((ofSchema s handlers (some settings.maxDepth)).tree (.root r)).outcome = .error f) := by
  by_cases hs : s.symbols r = []
  · rw [tree_of_symbols_eq_nil hs]
    constructor
    · rintro ⟨⟩
      exact Or.inl ⟨hs, rfl⟩
    · rintro (⟨-, rfl⟩ | ⟨hne, -⟩)
      · rfl
      · exact absurd hs hne
  · rw [tree_of_symbols hs]
    refine bind_eq_error_iff.trans ?_
    constructor
    · intro h
      exact Or.inr ⟨hs, h⟩
    · rintro (⟨hnil, -⟩ | ⟨-, h⟩)
      · exact absurd hnil hs
      · exact h

end Settings

theorem chooseRoot_eq_ok_iff {asked declared : Option String} {r : String} :
    chooseRoot asked declared = .ok r ↔ asked = some r ∨ asked = none ∧ declared = some r := by
  cases asked <;> cases declared <;> simp [chooseRoot]

theorem chooseRoot_eq_error_iff {asked declared : Option String} {f : Failure} :
    chooseRoot asked declared = .error f ↔
      asked = none ∧ declared = none ∧ f = .missingRootType := by
  cases asked <;> cases declared <;> simp [chooseRoot, eq_comm]

namespace CommandLine

open Decomposition (ofSchema namesText)

variable (around : Surroundings) (config : Option String) (schema : String)
  (root : Option String)

/-! ## The stages -/

/-- The settings, the schema and the root type that a call comes to work with: the root type that
was asked for, or else the one that the schema declares. -/
structure Rooted (settings : Settings) (s : Schema) (r : String) : Prop where
  loaded : Settings.load around.files around.globalPath config around.env = .ok settings
  readFrom : s.ReadFrom around.files schema
  chosen : root = some r ∨ root = none ∧ s.root = some r

/-- The first stage of a call for a tree that fails: the exit code, and the failure. -/
inductive Fails : Nat → Failure → Prop where
  | settings {detail : String}
      (h : Settings.load around.files around.globalPath config around.env
        = .error (.config detail)) :
      Fails 78 (.config detail)
  | schema {settings : Settings} {code : Nat} {failure : Failure}
      (loaded : Settings.load around.files around.globalPath config around.env = .ok settings)
      (h : Schema.Unusable around.files schema code failure) :
      Fails code failure
  | rootless {settings : Settings} {s : Schema}
      (loaded : Settings.load around.files around.globalPath config around.env = .ok settings)
      (readFrom : s.ReadFrom around.files schema) (hasked : root = none) (h : s.root = none) :
      Fails 64 .missingRootType
  | unknownRoot {settings : Settings} {s : Schema} {r : String}
      (rooted : Rooted around config schema root settings s r) (h : s.symbols r = []) :
      Fails 64 (.unknownRootType r)
  | unknownHandler {settings : Settings} {s : Schema} {r name plain : String}
      {before after : List String}
      (rooted : Rooted around config schema root settings s r) (known : s.symbols r ≠ [])
      (hnames : settings.handlers = before ++ name :: after)
      (hbefore : ∀ earlier ∈ before, Handler.IsKnown earlier) (h : ¬ Handler.IsKnown name)
      (hplain : Handler.Spells name plain) :
      Fails 78 (.unknownHandler plain)
  | tooDeep {settings : Settings} {s : Schema} {r : String} {handlers : List Handler}
      {nodes : List Node}
      (rooted : Rooted around config schema root settings s r) (known : s.symbols r ≠ [])
      (named : List.Forall₂ Handler.IsNamed settings.handlers handlers)
      (h : (ofSchema s handlers (some settings.maxDepth)).Exceeds (.root r) settings.maxDepth)
      (first : (ofSchema s handlers (some settings.maxDepth)).FirstDeep (.root r)
        settings.maxDepth nodes) :
      Fails 65 (.depthExceeded (namesText nodes) settings.maxDepth)

/-- No stage of a call for a tree fails: the settings that were loaded, and the whole tree of the
root type. -/
inductive Builds : Settings → Arena Node → Prop where
  | all {settings : Settings} {s : Schema} {r : String} {handlers : List Handler} {t : Rose Node}
      (rooted : Rooted around config schema root settings s r) (known : s.symbols r ≠ [])
      (named : List.Forall₂ Handler.IsNamed settings.handlers handlers)
      (within : ¬ (ofSchema s handlers (some settings.maxDepth)).Exceeds (.root r)
        settings.maxDepth)
      (hvalue : t.value = .root r)
      (whole : t.Unfolds (ofSchema s handlers (some settings.maxDepth)).offspring) :
      Builds settings (.ofTree 0 t)

variable {around : Surroundings} {config : Option String} {schema : String}
  {root : Option String}

/-- Once there is a root type, its tree under the settings decides. -/
theorem Rooted.fieldTree_eq {settings : Settings} {s : Schema} {r : String}
    (h : Rooted around config schema root settings s r) :
    fieldTree around config schema root
      = (settings.tree s.introspection r).map (settings, ·) := by
  rw [fieldTree, h.loaded]
  show (Schema.load around.files schema >>= _) = _
  rw [Schema.load_eq_ok_iff.2 h.readFrom]
  show (chooseRoot root s.root >>= _) = _
  rw [chooseRoot_eq_ok_iff.2 h.chosen]
  show (settings.tree s.introspection r >>= _) = _
  cases settings.tree s.introspection r <;> rfl

/-- **A call for a tree succeeds if no stage fails.** -/
theorem fieldTree_eq_ok_iff {settings : Settings} {a : Arena Node} :
    fieldTree around config schema root = .ok (settings, a) ↔
      Builds around config schema root settings a := by
  constructor
  · intro h
    simp only [fieldTree, bind_eq_ok_iff, Schema.load_eq_ok_iff, chooseRoot_eq_ok_iff] at h
    obtain ⟨_, hloaded, s, hread, r, hchosen, _, htree, ⟨⟩⟩ := h
    obtain ⟨hknown, handlers, hnamed, hout⟩ := Settings.tree_eq_ok_iff.1 htree
    obtain ⟨hwithin, t, hvalue, hwhole, rfl⟩ := (Decomposition.tree_outcome_eq_ok_iff rfl).1 hout
    exact .all ⟨hloaded, hread, hchosen⟩ hknown (Handler.chain_eq_ok_iff.1 hnamed) hwithin hvalue
      hwhole
  · rintro ⟨hrooted, hknown, hnamed, hwithin, hvalue, hwhole⟩
    have hout := (Decomposition.tree_outcome_eq_ok_iff rfl).2 ⟨hwithin, _, hvalue, hwhole, rfl⟩
    have hchain := Handler.chain_eq_ok_iff.2 hnamed
    rw [hrooted.fieldTree_eq, Settings.tree_eq_ok_iff.2 ⟨hknown, _, hchain, hout⟩]
    rfl

/-- A failure to give a tree is that of some stage. -/
theorem exists_fails_of_fieldTree_eq_error {f : Failure}
    (h : fieldTree around config schema root = .error f) :
    ∃ code, Fails around config schema root code f := by
  -- Each step either fails, and that is the stage, or hands its result to the rest.
  rw [fieldTree, bind_eq_error_iff] at h
  rcases h with h | ⟨settings, hloaded, h⟩
  · obtain ⟨detail, rfl⟩ := Settings.configOnly_load _ _ _ _ f h
    exact ⟨78, .settings h⟩
  rw [bind_eq_error_iff] at h
  rcases h with h | ⟨s, hread, h⟩
  · obtain ⟨code, h⟩ := Schema.load_eq_error_iff.1 h
    exact ⟨code, .schema hloaded h⟩
  rw [Schema.load_eq_ok_iff] at hread
  rw [bind_eq_error_iff] at h
  rcases h with h | ⟨r, hchosen, h⟩
  · obtain ⟨hasked, hnone, rfl⟩ := chooseRoot_eq_error_iff.1 h
    exact ⟨64, .rootless hloaded hread hasked hnone⟩
  have hrooted : Rooted around config schema root settings s r :=
    ⟨hloaded, hread, chooseRoot_eq_ok_iff.1 hchosen⟩
  rw [bind_eq_error_iff] at h
  rcases h with h | ⟨_, -, ⟨⟩⟩
  rcases Settings.tree_eq_error_iff.1 h with ⟨hs, rfl⟩ | ⟨hs, hchain | ⟨handlers, hnamed, hout⟩⟩
  · exact ⟨64, .unknownRoot hrooted hs⟩
  · obtain ⟨before, name, after, hnames, hbefore, hname, plain, hplain, rfl⟩ :=
      Handler.chain_eq_error_iff.1 hchain
    exact ⟨78, .unknownHandler hrooted hs hnames hbefore hname hplain⟩
  · obtain ⟨nodes, hfirst, rfl⟩ := (Decomposition.tree_outcome_eq_error_iff rfl).1 hout
    have hexceeds := Decomposition.exceeds_iff.2 ⟨nodes, hfirst⟩
    exact ⟨65, .tooDeep hrooted hs (Handler.chain_eq_ok_iff.1 hnamed) hexceeds hfirst⟩

/-- **A call for a tree fails as its first stage that fails.** -/
theorem fieldTree_eq_error_iff {f : Failure} :
    fieldTree around config schema root = .error f ↔
      ∃ code, Fails around config schema root code f := by
  refine ⟨exists_fails_of_fieldTree_eq_error, ?_⟩
  rintro ⟨code, h⟩
  cases h with
  | settings h =>
    rw [fieldTree, h]
    rfl
  | schema hloaded h =>
    rw [fieldTree, hloaded]
    show (Schema.load around.files schema >>= _) = _
    rw [Schema.load_eq_error_iff.2 ⟨code, h⟩]
    rfl
  | rootless hloaded hread hasked hnone =>
    rw [fieldTree, hloaded]
    show (Schema.load around.files schema >>= _) = _
    rw [Schema.load_eq_ok_iff.2 hread]
    show (chooseRoot root _ >>= _) = _
    rw [chooseRoot_eq_error_iff.2 ⟨hasked, hnone, rfl⟩]
    rfl
  | unknownRoot hrooted h =>
    rw [hrooted.fieldTree_eq, Settings.tree_of_symbols_eq_nil h]
    rfl
  | unknownHandler hrooted hs hnames hbefore h hplain =>
    have hchain := Handler.chain_eq_error_iff.2 ⟨_, _, _, hnames, hbefore, h, _, hplain, rfl⟩
    rw [hrooted.fieldTree_eq, Settings.tree_eq_error_iff.2 (Or.inr ⟨hs, Or.inl hchain⟩)]
    rfl
  | tooDeep hrooted hs hnamed _ hfirst =>
    have hout := (Decomposition.tree_outcome_eq_error_iff rfl).2 ⟨_, hfirst, rfl⟩
    have hchain := Handler.chain_eq_ok_iff.2 hnamed
    rw [hrooted.fieldTree_eq, Settings.tree_eq_error_iff.2 (Or.inr ⟨hs, Or.inr ⟨_, hchain, hout⟩⟩)]
    rfl

/-- Each stage has the exit code of its failure. -/
theorem Fails.code_eq {code : Nat} {f : Failure} (h : Fails around config schema root code f) :
    code = f.exitCode := by
  cases h with
  | schema _ h => cases h <;> rfl
  | _ => rfl

theorem Fails.not_isInternal {code : Nat} {f : Failure}
    (h : Fails around config schema root code f) : f.isInternal = false := by
  cases h with
  | schema _ h => exact h.not_isInternal
  | _ => rfl

end CommandLine

end FieldTree
