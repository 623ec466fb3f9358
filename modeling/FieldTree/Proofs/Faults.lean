/-
# What is wrong with a schema file

A schema file resolves as a whole or not at all.  It resolves if no type declares members as well
as variants and the type of every member can be read, and then the schema says what the file says,
type by type and member by member.  Otherwise the failure is that of the first type with a fault:
the types come in the order of the bytes of their names, and in a type the members in their order.

* `bytes_lt_iff` : names are ordered by their bytes;
* `mapM_eq_error_iff` : a row of computations fails like the first one that fails;
* `SchemaFile.definition_eq_ok_iff`, `SchemaFile.definition_eq_error_iff` : one type of a file;
* `SchemaFile.resolve_eq_mapM` : a schema has one type for each type of its file, in order;
* `SchemaFile.resolve_first_fault` : a file resolves as a whole, or its first fault is reported.
-/
import FieldTree.Proofs.Unfolding
import FieldTree.Proofs.Unread
import FieldTree.Schema.Format
import Mathlib.Data.String.Basic

namespace FieldTree

/-! ## The order of names -/

/-- The bytes of a text. -/
def bytes (s : String) : List UInt8 := s.toUTF8.data.toList

theorem bytes_eq (s : String) : bytes s = s.toList.flatMap String.utf8EncodeChar := by
  rw [← String.ofList_toList (s := s), bytes, String.toUTF8, String.toByteArray_ofList,
    List.utf8Encode, List.toList_data_toByteArray, String.toList_ofList]

/-- The bytes of a smaller character are smaller, whatever follows them. -/
theorem utf8EncodeChar_append_lt {c d : Char} (h : c < d) (xs ys : List UInt8) :
    String.utf8EncodeChar c ++ xs < String.utf8EncodeChar d ++ ys := by
  have hlt : c.val.toNat < d.val.toNat := h
  have hd : d.val.toNat < 1114112 := by
    rcases d.valid with hd | hd <;> omega
  -- The bytes are digits in base 64 behind marks for their number, each of which fits a byte.
  have hfits (n : Nat) : (n % 64 + 128) % 256 = n % 64 + 128 ∧ (n % 32 + 192) % 256 = n % 32 + 192 ∧
      (n % 16 + 224) % 256 = n % 16 + 224 ∧ (n % 8 + 240) % 256 = n % 8 + 240 := by omega
  have hthird (n : Nat) : n / 4096 = n / 64 / 64 := by omega
  have hfourth (n : Nat) : n / 262144 = n / 64 / 64 / 64 := by omega
  unfold String.utf8EncodeChar
  generalize c.val.toNat = v at *
  generalize d.val.toNat = w at *
  simp only
  split_ifs <;>
    simp only [List.cons_append, List.cons_lt_cons_iff, UInt8.lt_iff_toNat_lt, ← UInt8.toNat_inj,
      UInt8.toNat_ofNat', hfits, hthird, hfourth] <;>
    omega

/-- Texts of smaller characters have smaller bytes. -/
theorem flatMap_utf8EncodeChar_lt {cs ds : List Char} (h : cs < ds) :
    cs.flatMap String.utf8EncodeChar < ds.flatMap String.utf8EncodeChar := by
  induction cs generalizing ds with
  | nil =>
    cases ds with
    | nil => exact absurd h (List.lt_irrefl [])
    | cons d ds =>
      rw [List.flatMap_cons]
      cases hd : String.utf8EncodeChar d with
      | nil => exact absurd hd String.utf8EncodeChar_ne_nil
      | cons byte more => exact List.nil_lt_cons byte _
  | cons c cs ih =>
    cases ds with
    | nil => exact absurd h (List.not_lt_nil _)
    | cons d ds =>
      rw [List.flatMap_cons, List.flatMap_cons]
      rcases List.cons_lt_cons_iff.1 h with hlt | ⟨rfl, hlt⟩
      · exact utf8EncodeChar_append_lt hlt _ _
      · exact List.append_left_lt (ih hlt)

/-- **Names are ordered by their bytes.** -/
theorem bytes_lt_iff {s t : String} : bytes s < bytes t ↔ s < t := by
  have hlt {s t : String} (h : s < t) : bytes s < bytes t := by
    rw [bytes_eq, bytes_eq]
    exact flatMap_utf8EncodeChar_lt (String.lt_iff_toList_lt.1 h)
  constructor
  · intro h
    rcases lt_trichotomy s t with hst | rfl | hts
    · exact hst
    · exact absurd h (List.lt_irrefl _)
    · exact absurd (hlt hts) (List.lt_asymm h)
  · exact hlt

/-! ## Rows of computations -/

section

variable {α β γ ε : Type} {f : α → Except ε β} {xs : List α}

theorem exists_eq_ok_iff {r : Except ε β} : (∃ y, r = .ok y) ↔ Rose.failure? r = none := by
  cases r <;> simp [Rose.failure?]

theorem map_eq_ok_iff {r : Except ε α} {g : α → β} {y : β} :
    r.map g = .ok y ↔ ∃ x, r = .ok x ∧ g x = y := by
  cases r <;> simp [Except.map]

theorem exists_map_eq_ok_iff {r : Except ε α} {g : α → β} :
    (∃ y, r.map g = .ok y) ↔ ∃ x, r = .ok x := by
  cases r <;> simp [Except.map]

theorem map_eq_error_iff {r : Except ε α} {g : α → β} {e : ε} :
    r.map g = .error e ↔ r = .error e := by
  cases r <;> simp [Except.map]

/-- A row of computations succeeds if each of them does. -/
theorem exists_mapM_eq_ok_iff : (∃ ys, xs.mapM f = .ok ys) ↔ ∀ x ∈ xs, ∃ y, f x = .ok y := by
  simp only [exists_eq_ok_iff, Rose.failure?_mapM, List.findSome?_eq_none_iff]

/-- The results of a row of computations are theirs, one by one. -/
theorem mapM_eq_ok_iff_forall₂ {ys : List β} :
    xs.mapM f = .ok ys ↔ List.Forall₂ (fun x y => f x = .ok y) xs ys := by
  induction xs generalizing ys with
  | nil =>
    rw [List.forall₂_nil_left_iff]
    exact ⟨fun h => (Except.ok.inj h).symm, fun h => h ▸ rfl⟩
  | cons x xs ih =>
    rw [Rose.mapM_cons_eq_ok, List.forall₂_cons_left_iff]
    simp only [ih]

/-- **A row of computations fails like the first one that fails.** -/
theorem mapM_eq_error_iff {e : ε} :
    xs.mapM f = .error e ↔ ∃ before x after, xs = before ++ x :: after ∧
      (∀ b ∈ before, ∃ y, f b = .ok y) ∧ f x = .error e := by
  simp only [exists_eq_ok_iff, ← Rose.failure?_eq_some_iff, Rose.failure?_mapM,
    List.findSome?_eq_some_iff, and_comm]

/-- What folds the results of computations may as well compute them all first. -/
theorem foldlM_eq_map_mapM (h : γ → β → γ) (start : γ) :
    xs.foldlM (fun state x => do return h state (← f x)) start
      = (xs.mapM f).map (List.foldl h start) := by
  induction xs generalizing start with
  | nil => rfl
  | cons x xs ih =>
    rw [List.foldlM_cons, List.mapM_cons]
    cases f x with
    | error e => rfl
    | ok y =>
      show xs.foldlM _ (h start y) = _
      rw [ih]
      cases xs.mapM f <;> rfl

end

/-! ## Maps in the order of their names -/

namespace NameMap

variable {α : Type}

theorem put_concat {name : String} {value : α} {entries : List (String × α)}
    (h : ∀ entry ∈ entries, entry.1 < name) :
    put name value entries = entries ++ [(name, value)] := by
  induction entries with
  | nil => rfl
  | cons entry rest ih =>
    have hentry : entry.1 < name := h entry List.mem_cons_self
    rw [put, if_neg (String.lt_asymm hentry), if_neg (ne_of_gt hentry), List.cons_append,
      ih fun other ho => h other (List.mem_cons_of_mem _ ho)]

/-- What is inserted in the order of the names comes behind what is there. -/
theorem entries_foldl_insert {m : NameMap α} {entries : List (String × α)}
    (h : (m.entries ++ entries).Pairwise (·.1 < ·.1)) :
    (entries.foldl (fun n entry => n.insert entry.1 entry.2) m).entries = m.entries ++ entries := by
  induction entries generalizing m with
  | nil => exact (List.append_nil _).symm
  | cons entry rest ih =>
    have hput : (m.insert entry.1 entry.2).entries = m.entries ++ [entry] :=
      put_concat fun other ho => (List.pairwise_append.1 h).2.2 other ho entry List.mem_cons_self
    have hsplit : (m.insert entry.1 entry.2).entries ++ rest = m.entries ++ entry :: rest := by
      rw [hput, List.append_assoc]
      rfl
    rw [List.foldl_cons, ih (hsplit ▸ h), hsplit]

end NameMap

/-! ## What a file says -/

/-- A member is what its entry says, with the text of its type read. -/
def MemberEntry.States (m : MemberEntry) (x : Member) : Prop :=
  ∃ type, readType m.type = .ok type ∧ x = ⟨m.name, some ⟨m.name, m.kind, type, m.optional⟩⟩

namespace TypeEntry

/-- A type declares members as well as variants. -/
def DeclaresBoth (t : TypeEntry) : Prop := t.members.isSome ∧ t.union.isSome

/-- The members that a type lists, none if it does not say. -/
def listed (t : TypeEntry) : List MemberEntry := t.members.getD []

/-- Nothing is wrong with a type. -/
structure Sound (t : TypeEntry) : Prop where
  notBoth : ¬t.DeclaresBoth
  isType : ∀ m ∈ t.listed, IsType m.type

/-- A definition is what the entry of a type says: the same variants, or one member for each that
is listed, in the same order. -/
def States (t : TypeEntry) : Definition → Prop
  | .union variants => t.members = none ∧ t.union = some variants
  | .struct members => t.union = none ∧ List.Forall₂ MemberEntry.States t.listed members

/-- What is reported of a type: that it declares both, whatever its members are, or else its first
member whose type cannot be read. -/
inductive Fault (name : String) : TypeEntry → String → Prop
  | both (members : List MemberEntry) (variants : List String) :
      Fault name ⟨some members, some variants⟩
        ("type '" ++ name ++ "' declares both members and union")
  | member {before after : List MemberEntry} {m : MemberEntry} {failure : Failure}
      (readable : ∀ b ∈ before, IsType b.type) (unreadable : readType m.type = .error failure) :
      Fault name ⟨some (before ++ m :: after), none⟩
        (name ++ "." ++ m.name ++ ": " ++ failure.message)

end TypeEntry

namespace SchemaFile

variable {origin owner name : String} {m : MemberEntry} {t : TypeEntry} {f : SchemaFile}
  {failure : Failure}

/-! ## One type -/

theorem member_eq_ok_iff {x : Member} : member origin owner m = .ok x ↔ m.States x := by
  rw [member, MemberEntry.States]
  cases readType m.type with
  | ok type => simp [Member.declared, eq_comm]
  | error fault => simp

theorem member_eq_error_iff :
    member origin owner m = .error failure ↔ ∃ fault, readType m.type = .error fault ∧
      failure = .schema origin (owner ++ "." ++ m.name ++ ": " ++ fault.message) := by
  rw [member]
  cases readType m.type with
  | ok type => simp
  | error fault => simp [eq_comm]

theorem exists_member_eq_ok_iff : (∃ x, member origin owner m = .ok x) ↔ IsType m.type := by
  simp only [member_eq_ok_iff, MemberEntry.States, IsType]
  constructor
  · rintro ⟨_, type, htype, -⟩
    exact ⟨type, htype⟩
  · rintro ⟨type, htype⟩
    exact ⟨_, type, htype, rfl⟩

/-- A type without variants has the members that it lists. -/
theorem definition_struct (origin name : String) (members : Option (List MemberEntry)) :
    definition origin name ⟨members, none⟩
      = ((members.getD []).mapM (member origin name)).map Definition.struct := by
  cases members <;> rfl

/-- A type is defined as its entry says. -/
theorem definition_eq_ok_iff {d : Definition} :
    definition origin name t = .ok d ↔ t.States d := by
  obtain ⟨members, _ | variants⟩ := t
  · rw [definition_struct, map_eq_ok_iff]
    simp only [mapM_eq_ok_iff_forall₂, member_eq_ok_iff]
    cases d with
    | struct xs => simp [TypeEntry.States, TypeEntry.listed]
    | union variants => simp [TypeEntry.States]
  · cases members with
    | none => cases d <;> simp [definition, TypeEntry.States]
    | some members => cases d <;> simp [definition, TypeEntry.States]

/-- A type that cannot be defined has a fault, and the failure tells it. -/
theorem definition_eq_error_iff :
    definition origin name t = .error failure ↔
      ∃ detail, t.Fault name detail ∧ failure = .schema origin detail := by
  obtain ⟨members, _ | variants⟩ := t
  · rw [definition_struct, map_eq_error_iff, mapM_eq_error_iff]
    simp only [exists_member_eq_ok_iff, member_eq_error_iff]
    constructor
    · rintro ⟨before, m, after, hlisted, hbefore, fault, hfault, rfl⟩
      cases members with
      | none => exact absurd hlisted.symm (List.append_ne_nil_of_right_ne_nil _ (List.cons_ne_nil _ _))
      | some members =>
        obtain rfl : members = before ++ m :: after := hlisted
        exact ⟨_, .member hbefore hfault, rfl⟩
    · rintro ⟨detail, hfault, rfl⟩
      cases hfault with
      | member readable unreadable => exact ⟨_, _, _, rfl, readable, _, unreadable, rfl⟩
  · cases members with
    | none =>
      refine iff_of_false nofun ?_
      rintro ⟨detail, hfault, -⟩
      cases hfault
    | some members =>
      constructor
      · intro h
        exact ⟨_, .both members variants, (Except.error.inj h).symm⟩
      · rintro ⟨detail, hfault, rfl⟩
        cases hfault
        rfl

/-- A type can be defined if nothing is wrong with it. -/
theorem exists_definition_eq_ok_iff : (∃ d, definition origin name t = .ok d) ↔ t.Sound := by
  obtain ⟨members, _ | variants⟩ := t
  · rw [definition_struct, exists_map_eq_ok_iff, exists_mapM_eq_ok_iff]
    simp only [exists_member_eq_ok_iff]
    constructor
    · intro htypes
      refine ⟨?_, htypes⟩
      rintro ⟨-, hunion⟩
      cases hunion
    · intro hsound
      exact hsound.isType
  · cases members with
    | none =>
      refine iff_of_true ⟨_, rfl⟩ ⟨?_, ?_⟩
      · rintro ⟨hmembers, -⟩
        cases hmembers
      · intro m hm
        cases hm
    | some members =>
      refine iff_of_false ?_ fun hsound => hsound.notBoth ⟨rfl, rfl⟩
      rintro ⟨d, hd⟩
      cases hd

/-! ## All types -/

/-- The type that an entry of a file states, under its name. -/
def entry (origin : String) (e : String × TypeEntry) : Except Failure (String × Definition) :=
  (definition origin e.1 e.2).map fun d => (e.1, d)

theorem entry_eq_ok_iff {e : String × TypeEntry} {d : String × Definition} :
    entry origin e = .ok d ↔ d.1 = e.1 ∧ e.2.States d.2 := by
  rw [entry, map_eq_ok_iff]
  simp only [definition_eq_ok_iff]
  constructor
  · rintro ⟨_, hstates, rfl⟩
    exact ⟨rfl, hstates⟩
  · rintro ⟨hname, hstates⟩
    exact ⟨d.2, hstates, Prod.ext hname.symm rfl⟩

theorem exists_entry_eq_ok_iff {e : String × TypeEntry} :
    (∃ d, entry origin e = .ok d) ↔ e.2.Sound := by
  rw [← exists_definition_eq_ok_iff]
  exact exists_map_eq_ok_iff

theorem entry_eq_error_iff {e : String × TypeEntry} :
    entry origin e = .error failure ↔
      ∃ detail, e.2.Fault e.1 detail ∧ failure = .schema origin detail := by
  rw [entry, map_eq_error_iff, definition_eq_error_iff]

/-- The schema of a file defines the types one after another. -/
theorem resolve_eq_mapM (origin : String) (f : SchemaFile) :
    f.resolve origin = (f.types.entries.mapM (entry origin)).map fun ds =>
      ds.foldl (fun s d => s.define d.1 d.2) ⟨f.root, .empty⟩ := by
  rw [← foldlM_eq_map_mapM, resolve]
  congr
  funext s e
  rw [entry]
  cases definition origin e.1 e.2 <;> rfl

/-- Types defined in the order of their names are the types of the schema. -/
theorem foldl_define (root : Option String) (types : NameMap Definition)
    (ds : List (String × Definition)) :
    ds.foldl (fun s d => s.define d.1 d.2) (⟨root, types⟩ : Schema)
      = ⟨root, ds.foldl (fun n d => n.insert d.1 d.2) types⟩ := by
  induction ds generalizing types with
  | nil => rfl
  | cons d ds ih => exact ih _

/-- Entries under the names of a map, in the same order, are the entries of their map. -/
theorem entries_foldl_define {ds : List (String × Definition)}
    (h : ds.map Prod.fst = f.types.entries.map Prod.fst) :
    (ds.foldl (fun n d => n.insert d.1 d.2) NameMap.empty).entries = ds := by
  have hsorted : ds.Pairwise (·.1 < ·.1) := by
    rw [← List.pairwise_map (f := Prod.fst) (R := (· < ·)), h, List.pairwise_map]
    exact f.types.sorted
  exact NameMap.entries_foldl_insert hsorted

/-- **A file resolves to the schema that says what the file says.** -/
theorem resolve_eq_ok_iff {s : Schema} :
    f.resolve origin = .ok s ↔ s.root = f.root ∧
      List.Forall₂ (fun e d => d.1 = e.1 ∧ e.2.States d.2) f.types.entries s.types.entries := by
  have hnames {ds : List (String × Definition)}
      (hds : List.Forall₂ (fun e d => d.1 = e.1 ∧ e.2.States d.2) f.types.entries ds) :
      ds.map Prod.fst = f.types.entries.map Prod.fst := by
    rw [← List.forall₂_eq_eq_eq, List.forall₂_map_left_iff, List.forall₂_map_right_iff]
    exact (hds.imp fun _ _ h => h.1).flip
  rw [resolve_eq_mapM, map_eq_ok_iff]
  simp only [mapM_eq_ok_iff_forall₂, entry_eq_ok_iff, foldl_define]
  constructor
  · rintro ⟨ds, hds, rfl⟩
    refine ⟨rfl, ?_⟩
    rwa [entries_foldl_define (hnames hds)]
  · rintro ⟨hroot, hds⟩
    obtain ⟨root, ⟨ds, sorted⟩⟩ := s
    refine ⟨ds, hds, ?_⟩
    have hentries := entries_foldl_define (hnames hds)
    obtain rfl : root = f.root := hroot
    generalize ds.foldl _ NameMap.empty = types at hentries
    obtain ⟨entries, sorted'⟩ := types
    obtain rfl : entries = ds := hentries
    rfl

/-- A file resolves if nothing is wrong with any of its types. -/
theorem exists_resolve_eq_ok_iff :
    (∃ s, f.resolve origin = .ok s) ↔ ∀ e ∈ f.types.entries, e.2.Sound := by
  rw [resolve_eq_mapM, exists_map_eq_ok_iff, exists_mapM_eq_ok_iff]
  simp only [exists_entry_eq_ok_iff]

/-- **A file fails to resolve with the fault of its first type that has one.** -/
theorem resolve_eq_error_iff :
    f.resolve origin = .error failure ↔ ∃ before name t after detail,
      f.types.entries = before ++ (name, t) :: after ∧ (∀ e ∈ before, e.2.Sound) ∧
      t.Fault name detail ∧ failure = .schema origin detail := by
  rw [resolve_eq_mapM, map_eq_error_iff, mapM_eq_error_iff]
  simp only [exists_entry_eq_ok_iff, entry_eq_error_iff]
  constructor
  · rintro ⟨before, ⟨name, t⟩, after, hentries, hbefore, detail, hfault, rfl⟩
    exact ⟨before, name, t, after, detail, hentries, hbefore, hfault, rfl⟩
  · rintro ⟨before, name, t, after, detail, hentries, hbefore, hfault, rfl⟩
    exact ⟨before, (name, t), after, hentries, hbefore, detail, hfault, rfl⟩

/-- **A schema file resolves as a whole, or its first fault is reported.**  It resolves exactly if
no type declares members as well as variants and the type of every member can be read.  Then the
schema has the root of the file and the same names, and each of its definitions is what the file
says.  Otherwise the failure tells the fault of the type whose name is the least, byte by byte,
among those that have one.  A text fails or succeeds as the file that it states. -/
theorem resolve_first_fault (origin : String) (f : SchemaFile) :
    ((∃ s, f.resolve origin = .ok s) ↔
      (∀ e ∈ f.types.entries, ¬e.2.DeclaresBoth) ∧
      ∀ e ∈ f.types.entries, ∀ m ∈ e.2.listed, IsType m.type) ∧
    (∀ s, f.resolve origin = .ok s → s.root = f.root ∧
      List.Forall₂ (fun e d => d.1 = e.1 ∧ e.2.States d.2) f.types.entries s.types.entries) ∧
    (∀ failure, f.resolve origin = .error failure → ∃ name t detail,
      (name, t) ∈ f.types.entries ∧ t.Fault name detail ∧ failure = .schema origin detail ∧
      ∀ e ∈ f.types.entries, bytes e.1 < bytes name → e.2.Sound) ∧
    ∀ text, Toml.readAs ofEntries text = .ok f → Schema.parse text origin = f.resolve origin := by
  refine ⟨?_, fun s => resolve_eq_ok_iff.1, ?_, ?_⟩
  · rw [exists_resolve_eq_ok_iff]
    constructor
    · intro h
      exact ⟨fun e he => (h e he).notBoth, fun e he => (h e he).isType⟩
    · rintro ⟨hboth, htype⟩ e he
      exact ⟨hboth e he, htype e he⟩
  · intro failure h
    obtain ⟨before, name, t, after, detail, hentries, hbefore, hfault, rfl⟩ :=
      resolve_eq_error_iff.1 h
    have hmem : (name, t) ∈ f.types.entries := by
      rw [hentries]
      exact List.mem_append_right before List.mem_cons_self
    refine ⟨name, t, detail, hmem, hfault, rfl, ?_⟩
    intro e he hlt
    -- The names behind the reported one are greater.
    have hsorted := f.types.sorted
    rw [hentries, List.pairwise_append, List.pairwise_cons] at hsorted
    rw [bytes_lt_iff] at hlt
    rw [hentries, List.mem_append, List.mem_cons] at he
    rcases he with he | rfl | he
    · exact hbefore e he
    · exact absurd hlt (String.lt_irrefl _)
    · exact absurd hlt (String.lt_asymm (hsorted.2.1.1 e he))
  · intro text hread
    rw [Schema.parse, hread]

/-- Of two types with a fault the one with the smaller name is reported.  It may declare both, and
then it does not count that the type of a member cannot be read; or else it has a member of such a
type behind one that can be read.  A file without faults resolves. -/
theorem resolve_first_fault_both :
    let Reports (text detail : String) : Prop := ∃ f name t, Toml.readAs ofEntries text = .ok f ∧
      Schema.parse text "inline" = .error (.schema "inline" detail) ∧
      (name, t) ∈ f.types.entries ∧ t.Fault name detail ∧
      ∀ e ∈ f.types.entries, bytes e.1 < bytes name → e.2.Sound
    let sound := "root = 'A'\ntypes.A.members = [['a', 'A']]"
    Reports "types.C.members = [['b', 'B[']]\ntypes.B.members = [['a', '']]\ntypes.B.union = []"
      "type 'B' declares both members and union" ∧
    Reports "types.D.members = [['a', '']]\ntypes.C.members = [['a', 'C'], ['b', 'B[']]" ("C.b: "
      ++ "invalid type expression 'B[': Parsing Error: Error \x7b input: \"[\", code: Eof \x7d") ∧
    ∃ f s, Toml.readAs ofEntries sound = .ok f ∧ Schema.parse sound "inline" = .ok s ∧
      s.root = f.root ∧
      List.Forall₂ (fun e d => d.1 = e.1 ∧ e.2.States d.2) f.types.entries s.types.entries := by
  intro Reports sound
  have hreports : ∀ text detail, Rose.failure? (Toml.readAs ofEntries text) = none →
      Rose.failure? (Schema.parse text "inline") = some (.schema "inline" detail) →
      Reports text detail := by
    intro text detail hread hparsed
    obtain ⟨f, hf⟩ := exists_eq_ok_iff.2 hread
    have hfails := Rose.failure?_eq_some_iff.1 hparsed
    obtain ⟨-, -, hfault, hparse⟩ := resolve_first_fault "inline" f
    obtain ⟨name, t, _, hmem, hdetail, hfailure, hleast⟩ :=
      hfault _ ((hparse text hf).symm.trans hfails)
    cases hfailure
    exact ⟨f, name, t, hf, hfails, hmem, hdetail, hleast⟩
  refine ⟨hreports _ _ (by decide +kernel) (by decide +kernel),
    hreports _ _ (by decide +kernel) (by decide +kernel), ?_⟩
  have hread : ∃ f, Toml.readAs ofEntries sound = .ok f := by
    rw [exists_eq_ok_iff]
    decide +kernel
  have hresolves : ∃ s, Schema.parse sound "inline" = .ok s := by
    rw [exists_eq_ok_iff]
    decide +kernel
  obtain ⟨f, hf⟩ := hread
  obtain ⟨s, hs⟩ := hresolves
  obtain ⟨-, hstates, -, hparse⟩ := resolve_first_fault "inline" f
  exact ⟨f, s, hf, hs, hstates s ((hparse sound hf).symm.trans hs)⟩

end SchemaFile

end FieldTree
