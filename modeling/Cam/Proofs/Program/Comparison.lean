import Cam.Proofs.Run.LineFeed

/-!
# Proofs/Program/Comparison — the comparisons agree with one another

There are two ways to compare values: any two are equal or not, and two integers or two strings have
an order as well (`Value.Comparable`).  Where both ways are open they agree, so of `<`, `==` and `>`
exactly one holds, and `<=` and `>=` say that `>` and `<` do not (`RelOp.apply_coherent`).

Strings are ordered by the code points of their characters.  That is the order of their bytes too,
since in UTF-8 the lesser of two characters has the lesser bytes, and never just a part of the
other's bytes (`Text.bytes_lt_iff`).
-/

namespace Cam

/-! ## Texts and their bytes -/

namespace Text

theorem ofNat_cons_lt_iff {a b : Nat} (ha : a < 256) (hb : b < 256) {s t : List UInt8} :
    UInt8.ofNat a :: s < UInt8.ofNat b :: t ↔ a < b ∨ a = b ∧ s < t := by
  have htoNat {n : Nat} (hn : n < 256) : (UInt8.ofNat n).toNat = n := by
    rw [UInt8.toNat_ofNat', Nat.mod_eq_of_lt hn]
  rw [List.cons_lt_cons_iff, UInt8.lt_iff_toNat_lt, ← UInt8.toNat_inj, htoNat ha, htoNat hb]

/-- **The lesser of two characters has the lesser bytes**, whatever comes after them.  The first
byte tells if there are more bytes to one of them, and else the digits to the base 64 do.  Of four
bytes, the first has room for more than the highest code point needs. -/
theorem utf8EncodeChar_append_lt {c d : Char} (h : c < d) (s t : List UInt8) :
    String.utf8EncodeChar c ++ s < String.utf8EncodeChar d ++ t := by
  have hlt : c.val.toNat < d.val.toNat := h
  have hmax : d.val.toNat < 1114112 := by
    have hvalid := d.valid
    simp only [UInt32.isValidChar, Nat.isValidChar] at hvalid
    omega
  simp only [String.utf8EncodeChar]
  generalize c.val.toNat = m at hlt
  generalize d.val.toNat = n at hlt hmax
  generalize hrest : (s < t) = rest
  have hm : m / 262144 % 8 = m / 262144 := Nat.mod_eq_of_lt (by omega)
  have hn : n / 262144 % 8 = n / 262144 := Nat.mod_eq_of_lt (by omega)
  split_ifs <;>
    simp (disch := omega) only [List.cons_append, List.nil_append, ofNat_cons_lt_iff, hrest] <;>
    omega

theorem flatMap_utf8EncodeChar_lt {cs ds : List Char} (h : cs < ds) :
    cs.flatMap String.utf8EncodeChar < ds.flatMap String.utf8EncodeChar := by
  induction cs generalizing ds with
  | nil =>
    cases ds with
    | nil => exact absurd h (List.not_lt_nil [])
    | cons d ds =>
      obtain ⟨b, bs, hbytes⟩ := List.exists_cons_of_ne_nil (String.utf8EncodeChar_ne_nil (c := d))
      rw [List.flatMap_cons, hbytes]
      exact List.nil_lt_cons b _
  | cons c cs ih =>
    cases ds with
    | nil => exact absurd h (List.not_lt_nil _)
    | cons d ds =>
      rw [List.flatMap_cons, List.flatMap_cons]
      rcases List.cons_lt_cons_iff.1 h with hlt | ⟨rfl, hlt⟩
      · exact utf8EncodeChar_append_lt hlt _ _
      · exact List.append_left_lt (ih hlt)

/-- What follows the order of texts reflects it. -/
theorem lt_iff_of_mono {β : Type} [LT β] [Std.Asymm (· < · : β → β → Prop)] {f : String → List β}
    (hf : ∀ {s t}, s < t → f s < f t) {s t : String} : f s < f t ↔ s < t := by
  refine ⟨fun h => ?_, hf⟩
  rcases Std.lt_trichotomy s t with hst | rfl | hts
  · exact hst
  · exact absurd h (List.lt_asymm h)
  · exact absurd h (List.lt_asymm (hf hts))

/-- **Texts are in the order of their bytes.** -/
theorem bytes_lt_iff {s t : String} : bytes s < bytes t ↔ s < t :=
  lt_iff_of_mono fun {s t} h => by
    rw [bytes_eq_flatMap, bytes_eq_flatMap]
    exact flatMap_utf8EncodeChar_lt h

/-- The code points of a text. -/
def scalars (text : String) : List Nat := text.toList.map Char.toNat

/-- Texts are in the order of their code points. -/
theorem scalars_lt_iff {s t : String} : scalars s < scalars t ↔ s < t :=
  lt_iff_of_mono (f := scalars) fun h => List.map_lt (fun _ _ hlt => hlt) h

theorem lt_append {s t : String} (h : t ≠ "") : s < s ++ t := by
  have hne : t.toList ≠ [] := fun hnil => h (String.toList_eq_nil_iff.1 hnil)
  obtain ⟨c, cs, ht⟩ := List.exists_cons_of_ne_nil hne
  have hlt : s.toList ++ [] < s.toList ++ t.toList :=
    List.append_left_lt (ht ▸ List.nil_lt_cons c cs)
  rw [List.append_nil, ← String.toList_append] at hlt
  exact hlt

end Text

/-! ## Equality and order -/

namespace Value

variable {u v w : Value} {o : Ordering}

/-- Both values are integers, or both are strings. -/
def Comparable (u v : Value) : Prop := u.kind = v.kind ∧ (u.kind = .integer ∨ u.kind = .string)

/-- Values that are equal have the same kind. -/
theorem kind_eq_of_equal (h : u.equal v) : u.kind = v.kind := by
  cases u <;> cases v <;> first | rfl | cases h

theorem equal_equivalence : Equivalence fun u v : Value => u.equal v where
  refl u := by cases u <;> simp [equal, Function.same]
  symm {u v} h := by cases u <;> cases v <;> simp_all [equal, Function.same]
  trans {u v w} h h' := by
    cases u <;> cases v <;> cases w <;> simp_all [equal, Function.same]

/-- Integers and strings have an order among themselves, and nothing else has one. -/
theorem isSome_order? : (u.order? v).isSome ↔ Comparable u v := by
  cases u <;> cases v <;> simp [order?, Comparable, kind]

/-- Where there is an order it is that of two integers or of two strings. -/
theorem order?_cases (h : u.order? v = some o) :
    (∃ a b, u = .integer a ∧ v = .integer b ∧ compareOfLessAndEq a b = o) ∨
      ∃ a b, u = .string a ∧ v = .string b ∧ compareOfLessAndEq a b = o := by
  cases u <;> cases v <;> simp_all [order?]

theorem order?_integer_lt {a b : Int64} :
    (integer a).order? (integer b) = some .lt ↔ a.toInt < b.toInt := by
  rw [order?, Option.some_inj, compareOfLessAndEq_eq_lt, Int64.lt_iff_toInt_lt]

theorem order?_string_lt {a b : String} : (string a).order? (string b) = some .lt ↔ a < b := by
  rw [order?, Option.some_inj, compareOfLessAndEq_eq_lt]

/-- **The order finds two values alike where they are equal.** -/
theorem equal_of_order? (h : u.order? v = some o) : u.equal v = decide (o = .eq) := by
  rcases order?_cases h with ⟨a, b, rfl, rfl, rfl⟩ | ⟨a, b, rfl, rfl, rfl⟩
  · simp only [equal, compareOfLessAndEq_eq_eq Int64.le_refl Int64.not_le]
  · simp only [equal, compareOfLessAndEq_eq_eq String.le_refl String.not_le]

theorem order?_trans (h : u.order? v = some .lt) (h' : v.order? w = some .lt) :
    u.order? w = some .lt := by
  rcases order?_cases h with ⟨a, b, rfl, rfl, -⟩ | ⟨a, b, rfl, rfl, -⟩
  · rcases order?_cases h' with ⟨_, c, ⟨⟩, rfl, -⟩ | ⟨_, c, ⟨⟩, -⟩
    rw [order?_integer_lt] at h h' ⊢
    exact Int.lt_trans h h'
  · rcases order?_cases h' with ⟨_, c, ⟨⟩, -⟩ | ⟨_, c, ⟨⟩, rfl, -⟩
    rw [order?_string_lt] at h h' ⊢
    exact String.lt_trans h h'

end Value

/-! ## Comparisons -/

namespace RelOp

open Value Text

variable {u v w : Value}

/-- The comparison holds between the values. -/
def Holds (op : RelOp) (u v : Value) : Prop := op.apply u v = .ok true

/-- The comparisons that ask for an order. -/
def orders : List RelOp := [less, lessEqual, greater, greaterEqual]

/-- **Where there is an order it decides every comparison**, that for equality included. -/
theorem apply_of_order? {o : Ordering} (h : u.order? v = some o) (op : RelOp) :
    op.apply u v = .ok (op.allows o) := by
  have hequal := equal_of_order? h
  cases op with
  | equal => rw [apply, hequal, allows]
  | notEqual => simp only [apply, hequal, allows, ne_eq, decide_not]
  | less | lessEqual | greater | greaterEqual => simp only [apply, h]

/-- Where there is no order only equality can be asked for. -/
theorem apply_of_order?_eq_none (h : u.order? v = none) {op : RelOp} (hop : op ∈ orders) :
    op.apply u v = .error (.typeMismatch (.rel op) u.kind v.kind) := by
  cases op with
  | equal | notEqual => exact absurd hop (by decide)
  | less | lessEqual | greater | greaterEqual => simp only [apply, h]

theorem holds_equal_iff : equal.Holds u v ↔ u.equal v := by
  rw [Holds, apply, Except.ok.injEq]

theorem holds_less_iff : less.Holds u v ↔ u.order? v = some .lt := by
  cases h : u.order? v with
  | none =>
    rw [Holds, apply_of_order?_eq_none h (by decide)]
    exact ⟨nofun, nofun⟩
  | some o => simp [Holds, apply_of_order? h, allows]

/-- Of `<`, `==` and `>` the one that holds is the one the order allows. -/
theorem existsUnique_holds {o : Ordering} (h : u.order? v = some o) :
    ∃! op, op ∈ [less, equal, greater] ∧ op.Holds u v := by
  have hholds (op : RelOp) : op.Holds u v ↔ op.allows o := by
    rw [Holds, apply_of_order? h, Except.ok.injEq]
  simp only [hholds]
  cases o with
  | lt => exact ⟨less, by decide, fun op hop => by revert hop; cases op <;> decide⟩
  | eq => exact ⟨equal, by decide, fun op hop => by revert hop; cases op <;> decide⟩
  | gt => exact ⟨greater, by decide, fun op hop => by revert hop; cases op <;> decide⟩

/-- **The comparisons are coherent.**  Any two values can be compared for equality, which is an
equivalence, tells values of different kinds apart, and whose negation is `!=`.  Two integers or two
strings can be compared in all ways, of `<`, `==` and `>` exactly one holds, and `<=` and `>=` are
the negations of `>` and `<`.  The order is transitive: that of the numbers, and for strings that of
their bytes, which is that of their code points, where a text comes before all longer ones that it
begins.  For any other two values each comparison that asks for an order fails, with an error that
names it and the two kinds from left to right. -/
theorem apply_coherent :
    (∀ u v, ∃ b, equal.apply u v = .ok b ∧ notEqual.apply u v = .ok !b) ∧
    Equivalence equal.Holds ∧
    (∀ u v, u.kind ≠ v.kind → equal.apply u v = .ok false) ∧
    (∀ u v, Comparable u v →
      (∀ op : RelOp, ∃ b, op.apply u v = .ok b) ∧
      (∃! op, op ∈ [less, equal, greater] ∧ op.Holds u v) ∧
      lessEqual.apply u v = (greater.apply u v).map not ∧
      greaterEqual.apply u v = (less.apply u v).map not) ∧
    (∀ u v w, less.Holds u v → less.Holds v w → less.Holds u w) ∧
    (∀ a b, less.Holds (.integer a) (.integer b) ↔ a.toInt < b.toInt) ∧
    (∀ a b, less.Holds (.string a) (.string b) ↔ bytes a < bytes b) ∧
    (∀ a b, bytes a < bytes b ↔ scalars a < scalars b) ∧
    (∀ a b, b ≠ "" → less.Holds (.string a) (.string (a ++ b))) ∧
    ∀ u v, ¬ Comparable u v →
      ∀ op ∈ orders, op.apply u v = .error (.typeMismatch (.rel op) u.kind v.kind) := by
  have hless (a b : String) : less.Holds (.string a) (.string b) ↔ a < b :=
    holds_less_iff.trans order?_string_lt
  refine ⟨fun u v => ⟨u.equal v, rfl, rfl⟩, ?_, fun u v hne => ?_, fun u v h => ?_,
    fun u v w h h' => ?_, fun a b => holds_less_iff.trans order?_integer_lt,
    fun a b => (hless a b).trans bytes_lt_iff.symm,
    fun a b => bytes_lt_iff.trans scalars_lt_iff.symm,
    fun a b hb => (hless a _).2 (lt_append hb), fun u v h op hop => ?_⟩
  · have hequal : equal.Holds = fun u v => (u.equal v : Prop) := by
      funext u v
      exact propext holds_equal_iff
    rw [hequal]
    exact equal_equivalence
  · exact congrArg Except.ok (Bool.eq_false_iff.2 fun h => hne (kind_eq_of_equal h))
  · obtain ⟨o, ho⟩ := Option.isSome_iff_exists.1 (isSome_order?.2 h)
    refine ⟨fun op => ⟨_, apply_of_order? ho op⟩, existsUnique_holds ho, ?_, ?_⟩
    · rw [apply_of_order? ho, apply_of_order? ho]
      cases o <;> rfl
    · rw [apply_of_order? ho, apply_of_order? ho]
      cases o <;> rfl
  · rw [holds_less_iff] at h h' ⊢
    exact order?_trans h h'
  · have hnone := Option.not_isSome_iff_eq_none.1 fun ho => h (isSome_order?.1 ho)
    exact apply_of_order?_eq_none hnone hop

/-- A character of three bytes comes before one of four, and a number cannot be ordered with a text.
-/
theorem apply_coherent_wide :
    (Comparable (.string "\uffff") (.string "😀") ∧ less.Holds (.string "\uffff") (.string "😀") ∧
      bytes "\uffff" < bytes "😀" ∧
      greaterEqual.apply (.string "\uffff") (.string "😀") = .ok false) ∧
    ¬ Comparable (.integer 1) (.string "1") ∧ equal.apply (.integer 1) (.string "1") = .ok false ∧
      lessEqual.apply (.integer 1) (.string "1") =
        .error (.typeMismatch (.rel .lessEqual) .integer .string) := by
  obtain ⟨-, -, hkinds, hordered, -, -, hbytes, hscalars, -, hmismatch⟩ := apply_coherent
  have hcomparable : Comparable (.string "\uffff") (.string "😀") := ⟨rfl, .inr rfl⟩
  have hnot : ¬ Comparable (.integer 1) (.string "1") := fun h => nomatch h.1
  have hlt : bytes "\uffff" < bytes "😀" := (hscalars _ _).2 (by decide)
  have hholds : less.Holds (.string "\uffff") (.string "😀") := (hbytes _ _).2 hlt
  obtain ⟨-, -, -, hnegation⟩ := hordered _ _ hcomparable
  refine ⟨⟨hcomparable, hholds, hlt, ?_⟩, hnot, hkinds _ _ nofun, hmismatch _ _ hnot _ (by decide)⟩
  rw [hnegation, hholds]
  rfl

end RelOp

end Cam
