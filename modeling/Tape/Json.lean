import Mathlib

/-!
# JSON values, and decoders that accept exactly what an encoder writes

A `Json` is what a parser makes of a text: the numbers are read, and an object
is the list of its fields, of which the last of a name counts. A decoder takes
such a value, or its absence, to a typed value or an error.

`Exact` relates a decoder to an encoder and a predicate: an encoded value is
read back, as itself and only if the predicate holds of it, and nothing else is
ever read. The rules carry it from the items of a list to the list.
-/

namespace Tape

/-- A JSON value. -/
inductive Json where
  | null
  | bool (b : Bool)
  | number (q : ℚ)
  /-- a number too large for a double -/
  | infinite (negative : Bool)
  | string (s : String)
  | array (items : List Json)
  | object (fields : List (String × Json))

namespace Json

/-- The value of a field; of two with one name the last counts. -/
def field : List (String × Json) → String → Option Json
  | [], _ => none
  | (name, value) :: rest, key =>
      match field rest key with
      | some later => some later
      | none => if name = key then some value else none

@[simp] theorem field_nil (key : String) : field [] key = none := rfl

@[simp] theorem field_cons (name key : String) (value : Json) (rest : List (String × Json)) :
    field ((name, value) :: rest) key =
      (field rest key).or (if name = key then some value else none) := by
  rw [field]
  cases field rest key with
  | none => rfl
  | some later => rfl

theorem field_append (xs ys : List (String × Json)) (key : String) :
    field (xs ++ ys) key = (field ys key).or (field xs key) := by
  induction xs with
  | nil => simp
  | cons x rest ih =>
      obtain ⟨name, value⟩ := x
      rw [List.cons_append, field_cons, field_cons, ih, Option.or_assoc]

/-- Decode each item of an array, with its index. -/
def decodeItems {α β ε : Type*} (decode : Nat → α → Except ε β) :
    Nat → List α → Except ε (List β)
  | _, [] => .ok []
  | i, a :: rest =>
      match decode i a with
      | .error e => .error e
      | .ok b => (decodeItems decode (i + 1) rest).map (b :: ·)

section Decoders

universe u

variable {α β : Type u} {δ ε : Type*}

theorem bind_eq_ok_iff {x : Except ε α} {f : α → Except ε β} {b : β} :
    x >>= f = .ok b ↔ ∃ a, x = .ok a ∧ f a = .ok b := by
  cases x with
  | error e => simp [bind, Except.bind]
  | ok a => simp [bind, Except.bind]

theorem map_eq_ok_iff {x : Except ε α} {f : α → β} {b : β} :
    x.map f = .ok b ↔ ∃ a, x = .ok a ∧ f a = b := by
  cases x with
  | error e => simp [Except.map]
  | ok a => simp [Except.map]

/-- The decoder reads back what the encoder writes of good values, and reads
nothing but good values. -/
structure Exact (encode : α → δ) (decode : δ → Except ε α) (Good : α → Prop) : Prop where
  encoded : ∀ a b, decode (encode a) = .ok b ↔ b = a ∧ Good a
  good : ∀ x a, decode x = .ok a → Good a

namespace Exact

variable {encode : α → δ} {decode : δ → Except ε α} {Good : α → Prop}

theorem accepts_iff (h : Exact encode decode Good) (a : α) :
    decode (encode a) = .ok a ↔ Good a := by
  rw [h.encoded]
  exact and_iff_right rfl

/-- What is written of a value that is not good is refused. -/
theorem refuses (h : Exact encode decode Good) {a : α} (hbad : ¬ Good a) :
    ∃ e, decode (encode a) = .error e := by
  cases hread : decode (encode a) with
  | error e => exact ⟨e, rfl⟩
  | ok b => exact absurd ((h.encoded a b).mp hread).2 hbad

end Exact

/-- Each item, wherever it stands. -/
theorem decodeItems_map_iff {encode : α → δ} {decode : Nat → δ → Except ε α} {Good : α → Prop}
    (h : ∀ i, Exact encode (decode i) Good) (i : Nat) (l out : List α) :
    decodeItems decode i (l.map encode) = .ok out ↔ out = l ∧ ∀ a ∈ l, Good a := by
  induction l generalizing i out with
  | nil => simp [decodeItems, eq_comm]
  | cons a rest ih =>
      rw [List.map_cons, decodeItems]
      cases hread : decode i (encode a) with
      | error e =>
          have hbad : ¬ Good a := fun hgood => by
            rw [((h i).accepts_iff a).mpr hgood] at hread
            cases hread
          simp [hbad]
      | ok b =>
          obtain ⟨rfl, hgood⟩ := ((h i).encoded a b).mp hread
          dsimp only
          rw [map_eq_ok_iff]
          constructor
          · rintro ⟨later, hlater, rfl⟩
            obtain ⟨rfl, hrest⟩ := (ih (i + 1) later).mp hlater
            exact ⟨rfl, List.forall_mem_cons.mpr ⟨hgood, hrest⟩⟩
          · rintro ⟨rfl, hall⟩
            exact ⟨rest, (ih (i + 1) rest).mpr ⟨rfl, (List.forall_mem_cons.mp hall).2⟩, rfl⟩

theorem good_of_decodeItems {decode : Nat → δ → Except ε α} {Good : α → Prop}
    (h : ∀ i x a, decode i x = .ok a → Good a) {i : Nat} {l : List δ} {out : List α}
    (hread : decodeItems decode i l = .ok out) : ∀ a ∈ out, Good a := by
  induction l generalizing i out with
  | nil =>
      obtain rfl := Except.ok.inj hread
      exact fun _ ha => absurd ha List.not_mem_nil
  | cons x rest ih =>
      rw [decodeItems] at hread
      split at hread
      · cases hread
      · next b hb =>
          obtain ⟨later, hlater, rfl⟩ := map_eq_ok_iff.mp hread
          exact List.forall_mem_cons.mpr ⟨h i x b hb, ih hlater⟩

end Decoders

end Json

end Tape
