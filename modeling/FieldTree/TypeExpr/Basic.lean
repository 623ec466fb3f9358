/-
# Type expressions

The type that a field is declared with: a keyword type, a reference to a named type, an
array, a map, or a union of variants. `TypeExpr.text` writes one as it is read.
-/

namespace FieldTree

/-- A declared type. -/
inductive TypeExpr where
  /-- One of the built-in scalar types. -/
  | keyword (name : String)
  /-- A type referred to by its name. -/
  | reference (name : String)
  /-- A list of elements of one type. -/
  | array (element : TypeExpr)
  /-- Values filed under keys. -/
  | map (key value : TypeExpr)
  /-- One of several variants, in order. -/
  | union (variants : List TypeExpr)
  deriving Repr, Inhabited

/-- The names of the keyword types. -/
def keywordNames : List String :=
  ["string", "number", "boolean", "bigint", "symbol", "null", "undefined", "any", "unknown",
   "never", "void", "object"]

namespace TypeExpr

/-! ## Equality -/

mutual

/-- Equality of type expressions is decided part by part. -/
def decEq : (a b : TypeExpr) → Decidable (a = b)
  | .keyword m, .keyword n => decidable_of_iff (m = n) (by simp)
  | .reference m, .reference n => decidable_of_iff (m = n) (by simp)
  | .array a, .array b =>
    have := decEq a b
    decidable_of_iff (a = b) (by simp)
  | .map k v, .map l w =>
    have := decEq k l
    have := decEq v w
    decidable_of_iff (k = l ∧ v = w) (by simp)
  | .union as, .union bs =>
    have := decEqAll as bs
    decidable_of_iff (as = bs) (by simp)
  | .keyword _, .reference _ | .keyword _, .array _ | .keyword _, .map .. | .keyword _, .union _
  | .reference _, .keyword _ | .reference _, .array _ | .reference _, .map ..
  | .reference _, .union _ | .array _, .keyword _ | .array _, .reference _ | .array _, .map ..
  | .array _, .union _ | .map .., .keyword _ | .map .., .reference _ | .map .., .array _
  | .map .., .union _ | .union _, .keyword _ | .union _, .reference _ | .union _, .array _
  | .union _, .map .. => isFalse nofun

/-- Equality of lists of variants. -/
def decEqAll : (as bs : List TypeExpr) → Decidable (as = bs)
  | [], [] => isTrue rfl
  | [], _ :: _ | _ :: _, [] => isFalse nofun
  | a :: as, b :: bs =>
    have := decEq a b
    have := decEqAll as bs
    decidable_of_iff (a = b ∧ as = bs) (by simp)

end

instance : DecidableEq TypeExpr := decEq

/-! ## Parts -/

/-- The name that a reference refers to. -/
def referenceName? : TypeExpr → Option String
  | .reference name => some name
  | _ => none

/-- Whether the expression is a keyword type. -/
def isKeyword : TypeExpr → Bool
  | .keyword _ => true
  | _ => false

/-- Whether the expression is a union. -/
def isUnion : TypeExpr → Bool
  | .union _ => true
  | _ => false

/-! ## Written form -/

mutual

/-- The written form. Only a union that is the element of an array stands in brackets. -/
def text : TypeExpr → String
  | .keyword name => name
  | .reference name => name
  | .array element =>
    if element.isUnion then "(" ++ element.text ++ ")[]" else element.text ++ "[]"
  | .map key value => "Record<" ++ key.text ++ ", " ++ value.text ++ ">"
  | .union variants => " | ".intercalate (texts variants)

/-- The written forms of the variants of a union. -/
def texts : List TypeExpr → List String
  | [] => []
  | variant :: rest => variant.text :: texts rest

end

theorem texts_eq_map (variants : List TypeExpr) : texts variants = variants.map text := by
  induction variants with
  | nil => rfl
  | cons variant rest ih => simp [texts, ih]

/-! ## Absence of a value -/

/-- Whether the expression is one of the keywords for a missing value. -/
def isNullish (e : TypeExpr) : Bool := e == .keyword "null" || e == .keyword "undefined"

/-- The type of the values that are there: a union of one variant and missing values is
that variant. -/
def nonNullable (e : TypeExpr) : TypeExpr :=
  match e with
  | .union variants =>
    match variants.filter (!·.isNullish) with
    | [only] => only
    | _ => e
  | _ => e

/-! ## Small facts -/

example : (map (keyword "string") (array (union [reference "A", keyword "null"]))).text
    = "Record<string, (A | null)[]>" := by decide

/-- The written form of an array puts brackets around a union and nothing else. -/
theorem text_array (element : TypeExpr) :
    (array element).text
      = if element.isUnion then "(" ++ element.text ++ ")[]" else element.text ++ "[]" := by
  rw [text]

theorem text_union (variants : List TypeExpr) :
    (union variants).text = " | ".intercalate (variants.map text) := by
  rw [text, texts_eq_map]

theorem nonNullable_of_not_isUnion {e : TypeExpr} (h : e.isUnion = false) :
    e.nonNullable = e := by
  cases e <;> simp_all [nonNullable, isUnion]

end TypeExpr

end FieldTree
