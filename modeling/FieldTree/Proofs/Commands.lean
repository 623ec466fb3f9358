/-
# How commands end

A call of a command ends with an exit code, and with texts on two streams.  A call for a tree ends
as the first of its stages that fails, and prints nothing then; a drawing and a lens module differ
in what is printed only if no stage fails.

* `CommandLine.not_isInternal_of_print` : no command fails with an error inside the library;
* `CommandLine.Outcome.Shows` : what can be said of an outcome, however much is logged;
* `CommandLine.outcome_of_stages` : the outcome is that of the first stage that fails.
-/
import FieldTree.Proofs.Stages

namespace FieldTree

namespace CommandLine

open Decomposition (ofSchema)

/-! ## What commands print -/

variable {wording : Wording} {around : Surroundings} {config : Option String} {schema : String}
  {root : Option String}

theorem print_tree (colours : Bool) :
    Command.print wording around colours config (.tree schema root)
      = (fieldTree around config schema root).map fun built =>
        .text (built.2.drawing ++ "\n") := by
  rw [Command.print]
  cases fieldTree around config schema root <;> rfl

theorem print_lenses (colours : Bool) :
    Command.print wording around colours config (.lenses schema root)
      = (fieldTree around config schema root).map fun built =>
        .text (built.2.lensModule built.1.idField) := by
  rw [Command.print]
  cases fieldTree around config schema root <;> rfl

/-- No command fails with an error inside the library. -/
theorem not_isInternal_of_print {colours : Bool} {command : Command} {f : Failure}
    (h : command.print wording around colours config = .error f) : f.isInternal = false := by
  have htree : ∀ {schema : String} {root : Option String},
      fieldTree around config schema root = .error f → f.isInternal = false := by
    intro schema root h
    obtain ⟨code, hfails⟩ := fieldTree_eq_error_iff.1 h
    exact hfails.not_isInternal
  cases command with
  | tree schema root =>
    rw [print_tree, map_eq_error_iff] at h
    exact htree h
  | lenses schema root =>
    rw [print_lenses, map_eq_error_iff] at h
    exact htree h
  | types schema =>
    rw [Command.print, typeList, bind_eq_error_iff] at h
    rcases h with h | ⟨_, -, ⟨⟩⟩
    obtain ⟨code, hunusable⟩ := Schema.load_eq_error_iff.1 h
    exact hunusable.not_isInternal
  | config action =>
    cases action with
    | view =>
      have hview : ConfigOnly (Command.print wording around colours config (.config .view)) :=
        (Settings.configOnly_load _ _ _ _).bind fun settings =>
          settings.configOnly_toToml.bind fun _ => configOnly_ok _
      obtain ⟨detail, rfl⟩ := hview f h
      rfl
    | template => cases h
    | path =>
      rw [Command.print, configPath] at h
      split at h
      · cases h
        rfl
      · split at h <;> cases h
  | completion shell => cases h

/-! ## Outcomes -/

/-- What can be said of an outcome, however much is logged: the exit code, the output, and the
last text among the errors.  Without more talk nothing stands before this text. -/
structure Outcome.Shows (o : Outcome) (debug code : Nat) (output last : String) : Prop where
  code_eq : o.code = code
  output_eq : o.output = output
  errors_eq : ∃ log, o.errors = log ++ last ∧ (debug = 0 → log = "")

/-- Without more talk an outcome is known as a whole. -/
theorem Outcome.Shows.eq {o : Outcome} {code : Nat} {output last : String}
    (h : o.Shows 0 code output last) : o = ⟨code, output, last⟩ := by
  obtain ⟨code', output', errors⟩ := o
  obtain ⟨rfl, rfl, log, rfl, hlog⟩ := h
  rw [hlog rfl, String.empty_append]

/-- The line about a failure. -/
def errorLine (around : Surroundings) (failure : Failure) : String :=
  paint (wantsColours around.env around.terminal) .error "error" ++ ": " ++ failure.message ++ "\n"

/-- A call of a command leaves the result of the command behind, after its own talk. -/
theorem shows_of_print (debug : Nat) {command : Command} {result : Except Failure Printed}
    (h : command.print wording around (wantsColours around.env around.terminal) config = result) :
    let plain := Outcome.ofResult (wantsColours around.env around.terminal) result
    (Invocation.outcome wording around ⟨debug, config, some command⟩).Shows debug plain.code
      plain.output plain.errors := by
  subst h
  exact ⟨rfl, rfl, _, rfl, fun hdebug => if_pos hdebug⟩

/-- A call of a command that fails ends with the line about its failure, and has no output. -/
theorem shows_of_print_eq_error (debug : Nat) {command : Command} {f : Failure}
    (h : command.print wording around (wantsColours around.env around.terminal) config
      = .error f) :
    (Invocation.outcome wording around ⟨debug, config, some command⟩).Shows debug f.exitCode ""
      (errorLine around f) :=
  shows_of_print debug h

theorem shows_of_print_eq_ok (debug : Nat) {command : Command} {text : String}
    (h : command.print wording around (wantsColours around.env around.terminal) config
      = .ok (.text text)) :
    (Invocation.outcome wording around ⟨debug, config, some command⟩).Shows debug 0 text "" :=
  shows_of_print debug h

/-- A call that does not end well prints nothing, and no call ends with an error inside the
library. -/
theorem outcome_code (wording : Wording) (around : Surroundings) (i : Invocation) :
    (i.outcome wording around).code ≠ 70 ∧
    ((i.outcome wording around).code ≠ 0 → (i.outcome wording around).output = "") := by
  obtain ⟨debug, config, command⟩ := i
  cases command with
  | none => exact ⟨(by decide : 64 ≠ 70), fun _ => rfl⟩
  | some command =>
    cases h : command.print wording around (wantsColours around.env around.terminal) config with
    | ok printed =>
      have hcode := (shows_of_print debug h).code_eq
      rw [hcode]
      exact ⟨(by decide : 0 ≠ 70), fun hne => absurd rfl hne⟩
    | error f =>
      have hshows := shows_of_print_eq_error debug h
      rw [hshows.code_eq]
      exact ⟨Failure.exitCode_ne_software (not_isInternal_of_print h), fun _ => hshows.output_eq⟩

theorem run_code (wording : Wording) (around : Surroundings) (args : List String) :
    (run around args wording).code ≠ 70 ∧
    ((run around args wording).code ≠ 0 → (run around args wording).output = "") := by
  rw [run]
  cases Request.ofArguments args with
  | run i => exact outcome_code wording around i
  | version names => exact ⟨(by decide : 0 ≠ 70), fun h => absurd rfl h⟩
  | help names => exact ⟨(by decide : 0 ≠ 70), fun h => absurd rfl h⟩
  | misuse => exact ⟨(by decide : 2 ≠ 70), fun _ => rfl⟩

/-- A type with one field that is not decomposed, and the text that states it. -/
def leafText : String := "root = 'A'\ntypes.A.members = [['b', 'string']]"

/-- That text in the only file there is, and an environment. -/
def leafAround (env : Environment) : Surroundings where
  files path := if path = "a.toml" then .file leafText.toUTF8 else .absent Entry.notFound
  env := env
  globalPath := none
  terminal := false

/-- An environment that names a handler there is and one there is not. -/
def foreign : Environment := [("TYPETREE_HANDLERS", " Array ,\u00a0Foo ")]

/-- The field of that type. -/
def leaf : Declaration := ⟨"b", .property, .keyword "string", false⟩

/-- What the file says. -/
theorem exists_leaf (env : Environment) : ∃ s : Schema,
    s.ReadFrom (leafAround env).files "a.toml" ∧ s.root = some "A" ∧
    s.definition? "A" = some (.struct [.declared leaf]) ∧ s.definition? "B" = none := by
  have hsays : (Schema.parse leafText "a.toml").toOption.map
      (fun s => (s.root, s.definition? "A", s.definition? "B"))
      = some (some "A", some (.struct [.declared leaf]), none) := by decide +kernel
  have htext : ((leafAround env).files "a.toml").text.toOption = some leafText := by
    show (Entry.file leafText.toUTF8).text.toOption = some leafText
    decide +kernel
  obtain ⟨s, hs, hsays⟩ := Option.map_eq_some_iff.1 hsays
  obtain ⟨hroot, hdefined⟩ := Prod.mk.inj hsays
  obtain ⟨hstruct, hnone⟩ := Prod.mk.inj hdefined
  exact ⟨s, ⟨rfl, leafText, eq_ok_of_toOption htext, eq_ok_of_toOption hs⟩, hroot, hstruct, hnone⟩

/-- The tree of the type: its root, and below it the field. -/
def leafTree : Rose Node :=
  .node (.root "A") [.node ⟨.terminal, "b", some "A", some leaf, none⟩ []]

/-- Without settings the tree is built. -/
theorem builds_leaf :
    Builds (leafAround []) none "a.toml" none Settings.defaults (.ofTree 0 leafTree) := by
  obtain ⟨s, hread, hroot, hstruct, -⟩ := exists_leaf []
  have hsymbols : s.symbols "A" = ["A"] := Schema.IsStruct.symbols_eq ⟨_, hstruct⟩
  let p := ofSchema s Handler.defaults (some Settings.defaults.maxDepth)
  have hwhole : leafTree.Unfolds p.offspring := by
    refine .node ?_ (List.forall_mem_singleton.2 (.node ?_ (List.forall_mem_nil _)))
    · rw [Decomposition.offspring_of_struct (x := .root "A") hsymbols hstruct]
      rfl
    · rw [Decomposition.offspring_of_no_struct rfl]
      rfl
  have hdepth : leafTree.depth ≤ p.levels + 1 := (by decide : 2 ≤ 32 + 1)
  have hout : (p.tree (.root "A")).outcome = .ok (.ofTree 0 leafTree) :=
    Decomposition.tree_eq_ok.2 ⟨_, Rose.unfold_eq_ok.2 ⟨rfl, hwhole, hdepth⟩, rfl⟩
  have hwithin := ((Decomposition.tree_outcome_eq_ok_iff rfl).1 hout).1
  have hnamed := Handler.chain_eq_ok_iff.1
    (show Handler.chain Settings.defaults.handlers = .ok Handler.defaults from rfl)
  exact .all ⟨rfl, hread, Or.inr ⟨rfl, hroot⟩⟩ (hsymbols ▸ List.cons_ne_nil _ _) hnamed hwithin rfl
    hwhole

/-- A type that is not defined cannot be a root. -/
theorem fails_leaf_unknownRoot :
    Fails (leafAround []) none "a.toml" (some "B") 64 (.unknownRootType "B") := by
  obtain ⟨s, hread, -, -, hnone⟩ := exists_leaf []
  refine .unknownRoot ⟨rfl, hread, Or.inl rfl⟩ ?_
  rw [Schema.symbols, Schema.reach_of_undefined hnone, Schema.reach_nil]

/-- Names of handlers are looked up without white space and in small letters. -/
theorem fails_leaf_unknownHandler :
    Fails (leafAround foreign) none "a.toml" none 78 (.unknownHandler "foo") := by
  obtain ⟨s, hread, hroot, hstruct, -⟩ := exists_leaf foreign
  have hsymbols : s.symbols "A" = ["A"] := Schema.IsStruct.symbols_eq ⟨_, hstruct⟩
  have hloaded : Settings.load (leafAround foreign).files none none foreign
      = .ok { Settings.defaults with handlers := [" Array ", "\u00a0Foo "] } :=
    eq_ok_of_toOption (by decide +kernel)
  have hknown : Handler.IsKnown " Array " :=
    Or.inl (Handler.normalName_eq_iff.1 (by decide +kernel))
  have hspells : Handler.Spells "\u00a0Foo " "foo" :=
    Handler.normalName_eq_iff.1 (by decide +kernel)
  have hunknown : ¬ Handler.IsKnown "\u00a0Foo " := by
    simp only [Handler.IsKnown, ← Handler.normalName_eq_iff]
    decide +kernel
  have hnames : [" Array ", "\u00a0Foo "] = [" Array "] ++ "\u00a0Foo " :: [] := rfl
  exact .unknownHandler ⟨hloaded, hread, Or.inr ⟨rfl, hroot⟩⟩ (hsymbols ▸ List.cons_ne_nil _ _)
    hnames (List.forall_mem_singleton.2 hknown) hunknown hspells

end CommandLine

end FieldTree
