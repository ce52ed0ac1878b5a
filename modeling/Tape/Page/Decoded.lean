import Tape.Page.Decode
import Tape.Web.RowTotals

/-!
# The page reads what the server writes, exactly where it is in range

What a decoder accepts is in range (`Good`), and what the server encodes of a
value in range is read back as it is; of a value out of range nothing is read.
A number past the safe integers is rounded before it is looked at, and is past
them still (`safeInteger_int`).
-/

namespace Tape.Page.Decode

open Api.Contract
open Json (bind_eq_ok_iff map_eq_ok_iff)

/-! ## Values in range -/

/-- A price the page accepts. -/
def IsPrice (n : Int) : Prop := 0 ≤ n ∧ n ≤ maxPriceE4

/-- A count the page accepts: a safe integer that is not negative. -/
def IsCount (n : Int) : Prop := 0 ≤ n ∧ n ≤ maxSafeInteger

/-- A count the page accepts, and not nothing. -/
def IsPositive (n : Int) : Prop := 1 ≤ n ∧ n ≤ maxSafeInteger

instance (n : Int) : Decidable (IsPrice n) := inferInstanceAs (Decidable (_ ∧ _))
instance (n : Int) : Decidable (IsCount n) := inferInstanceAs (Decidable (_ ∧ _))
instance (n : Int) : Decidable (IsPositive n) := inferInstanceAs (Decidable (_ ∧ _))

/-- Levels in range, best first and each price once. -/
structure Ladder (side : Side) (levels : List Level) : Prop where
  inRange : ∀ level ∈ levels, IsPrice level.price ∧ IsCount level.count
  ordered : (levels.map Level.price).Pairwise (Follows side)

/-- The messages a page reads. -/
def Good : ServerMessage → Prop
  | .hello protocol maxTickers busRefreshS =>
      IsPositive protocol ∧ IsPositive maxTickers ∧ IsPositive busRefreshS
  | .subscribed tickers rejected =>
      (∀ ticker ∈ tickers, ticker ≠ "") ∧ ∀ r ∈ rejected, r.ticker ≠ ""
  | .snapshot market _ tsMs bids asks =>
      market ≠ "" ∧ (∀ ms ∈ tsMs, IsCount ms) ∧ Ladder .bid bids ∧ Ladder .ask asks
  | .delta market tsMs _ priceE4 deltaE2 =>
      market ≠ "" ∧ (∀ ms ∈ tsMs, IsCount ms) ∧ IsPrice priceE4 ∧
        minSafeInteger ≤ deltaE2 ∧ deltaE2 ≤ maxSafeInteger
  | .book market _ => market ≠ ""
  | .resync market _ => market ≠ ""
  | .trade m => m.ticker ≠ "" ∧ IsCount m.tsMs ∧ IsPrice m.priceE4 ∧ IsPositive m.countE2
  | .ticker m =>
      m.ticker ≠ "" ∧ IsCount m.tsMs ∧ (∀ p ∈ m.bidE4, IsPrice p) ∧ (∀ p ∈ m.askE4, IsPrice p) ∧
        (∀ p ∈ m.lastE4, IsPrice p) ∧ IsCount m.volumeE2
  | .error _ _ => True

/-! ## Reading a field -/

variable {α : Type} {fields : Fields} {key path s : String} {n lo hi : Int}

theorem text_eq_ok_iff :
    text fields key path = .ok s ↔ Json.field fields key = some (.string s) := by
  unfold text
  split
  · next s' hs =>
      rw [hs]
      simp
  · next hother =>
      exact ⟨nofun, fun h => absurd h (hother s)⟩

theorem nonEmptyText_eq_ok_iff : nonEmptyText fields key path = .ok s ↔
    Json.field fields key = some (.string s) ∧ s ≠ "" := by
  unfold nonEmptyText
  rw [bind_eq_ok_iff]
  constructor
  · rintro ⟨s', hs', h⟩
    rw [text_eq_ok_iff] at hs'
    split at h
    · cases h
    · next hne =>
        obtain rfl : s' = s := Except.ok.inj h
        exact ⟨hs', hne⟩
  · rintro ⟨hs, hne⟩
    exact ⟨s, text_eq_ok_iff.mpr hs, by rw [if_neg hne]; rfl⟩

theorem integerValue_eq_ok_iff {value : Option Json} :
    integerValue value path lo hi = .ok n ↔ safeInteger value = some n ∧ lo ≤ n ∧ n ≤ hi := by
  unfold integerValue
  split
  · next n' hn =>
      rw [hn]
      split
      · next hout =>
          constructor
          · intro h
            cases h
          · rintro ⟨h, hlo, hhi⟩
            obtain rfl := Option.some.inj h
            omega
      · next hin =>
          constructor
          · intro h
            obtain rfl := Except.ok.inj h
            exact ⟨rfl, by omega, by omega⟩
          · rintro ⟨h, -, -⟩
            rw [Option.some.inj h]
  · next hnone =>
      rw [hnone]
      constructor
      · intro h
        cases h
      · rintro ⟨h, -, -⟩
        cases h

theorem nullable_eq_ok_iff {read : Fields → String → String → Decoded α} {o : Option α} :
    nullable read fields key path = .ok o ↔
      (Json.field fields key = some .null ∧ o = none) ∨
        Json.field fields key ≠ some .null ∧ ∃ a, read fields key path = .ok a ∧ some a = o := by
  unfold nullable
  split
  · next hnull =>
      rw [hnull]
      simp [eq_comm]
  · next hother =>
      have hne : Json.field fields key ≠ some .null := hother
      rw [map_eq_ok_iff]
      simp [hne]

theorem oneOf_eq_ok_iff {allowed : List (String × α)} {a : α} :
    oneOf fields key path allowed = .ok a ↔ ∃ s entry,
      Json.field fields key = some (.string s) ∧
        allowed.find? (fun entry => entry.1 = s) = some entry ∧ entry.2 = a := by
  unfold oneOf
  dsimp only
  split
  · next s hs =>
      split
      · next entry hentry =>
          rw [hs]
          constructor
          · intro h
            exact ⟨s, entry, rfl, hentry, Except.ok.inj h⟩
          · rintro ⟨s', entry', hs', hentry', rfl⟩
            obtain rfl := Json.string.inj (Option.some.inj hs')
            rw [Option.some.inj (hentry.symm.trans hentry')]
      · next hnone =>
          rw [hs]
          constructor
          · intro h
            cases h
          · rintro ⟨s', entry', hs', hentry', -⟩
            obtain rfl := Json.string.inj (Option.some.inj hs')
            rw [hnone] at hentry'
            cases hentry'
  · next hother =>
      constructor
      · intro h
        cases h
      · rintro ⟨s', -, hs', -, -⟩
        exact absurd hs' (hother s')

theorem flag_eq_ok_iff {b : Bool} :
    flag fields key path = .ok b ↔ Json.field fields key = some (.bool b) := by
  unfold flag
  split
  · next b' hb =>
      rw [hb]
      simp
  · next hother =>
      exact ⟨nofun, fun h => absurd h (hother b)⟩

theorem record_eq_ok_iff {value : Option Json} {out : Fields} :
    record value path = .ok out ↔ value = some (.object out) := by
  unfold record
  split
  · simp
  · next hother =>
      exact ⟨nofun, fun h => absurd h (hother out)⟩

theorem array_eq_ok_iff {value : Option Json} {items : List Json} :
    array value path = .ok items ↔ value = some (.array items) := by
  unfold array
  split
  · simp
  · next hother =>
      exact ⟨nofun, fun h => absurd h (hother items)⟩

/-! ## Reading what was written -/

/-- A safe integer is written as it is; another one is rounded, to a number that
is not safe either. -/
theorem safeInteger_int :
    safeInteger (some (int n)) =
      if minSafeInteger ≤ n ∧ n ≤ maxSafeInteger then some n else none := by
  have hden : ((Web.toDouble n : Int) : ℚ).den = 1 := rfl
  have hnum : ((Web.toDouble n : Int) : ℚ).num = Web.toDouble n := rfl
  unfold safeInteger int
  dsimp only
  rw [hden, hnum]
  by_cases hfar : 2 ^ 53 < n.natAbs
  · obtain ⟨m, hm, heq⟩ := Web.toDouble_far hfar
    have hout : ¬ (minSafeInteger ≤ n ∧ n ≤ maxSafeInteger) := by
      unfold minSafeInteger maxSafeInteger
      omega
    have hrounded : ¬ (minSafeInteger ≤ n.sign * m ∧ n.sign * m ≤ maxSafeInteger) := by
      unfold minSafeInteger maxSafeInteger
      rcases Int.lt_trichotomy n 0 with hneg | rfl | hpos
      · rw [Int.sign_eq_neg_one_of_neg hneg]
        omega
      · simp at hfar
      · rw [Int.sign_eq_one_of_pos hpos]
        omega
    rw [heq, if_neg hout, if_neg fun h => hrounded h.2]
  · have hsame : Web.toDouble n = n := if_pos (by omega)
    rw [hsame]
    simp

variable {m : Int}

/-- A number that was written is read where it is in the bounds asked for. -/
theorem integer_int (h : Json.field fields key = some (int n)) (hlo : minSafeInteger ≤ lo)
    (hhi : hi ≤ maxSafeInteger) :
    integer lo hi fields key path = .ok m ↔ m = n ∧ lo ≤ n ∧ n ≤ hi := by
  unfold integer
  rw [integerValue_eq_ok_iff, h, safeInteger_int]
  constructor
  · rintro ⟨hsome, hin⟩
    split at hsome
    · obtain rfl := Option.some.inj hsome
      exact ⟨rfl, hin⟩
    · cases hsome
  · rintro ⟨rfl, hin⟩
    rw [if_pos ⟨by omega, by omega⟩]
    exact ⟨rfl, hin⟩

theorem count_int (h : Json.field fields key = some (int n)) :
    count fields key path = .ok m ↔ m = n ∧ IsCount n :=
  integer_int h (by decide) le_rfl

theorem positive_int (h : Json.field fields key = some (int n)) :
    integer 1 maxSafeInteger fields key path = .ok m ↔ m = n ∧ IsPositive n :=
  integer_int h (by decide) le_rfl

theorem price_int (h : Json.field fields key = some (int n)) :
    price fields key path = .ok m ↔ m = n ∧ IsPrice n :=
  integer_int h (by decide) (by decide)

theorem text_string {s' : String} (h : Json.field fields key = some (.string s)) :
    text fields key path = .ok s' ↔ s' = s := by
  rw [text_eq_ok_iff, h]
  simp [eq_comm]

theorem nonEmptyText_string {s' : String} (h : Json.field fields key = some (.string s)) :
    nonEmptyText fields key path = .ok s' ↔ s' = s ∧ s ≠ "" := by
  rw [nonEmptyText_eq_ok_iff, h]
  constructor
  · rintro ⟨hs, hne⟩
    obtain rfl := Json.string.inj (Option.some.inj hs)
    exact ⟨rfl, hne⟩
  · rintro ⟨rfl, hne⟩
    exact ⟨rfl, hne⟩

/-- A field that may be null is read as its value is. -/
theorem nullable_encoded {read : Fields → String → String → Decoded α} {encode : α → Json}
    {InRange : α → Prop} {o out : Option α} (hnull : ∀ a, encode a ≠ .null)
    (h : Json.field fields key = some (Api.Contract.nullable encode o))
    (hread : ∀ a b, Json.field fields key = some (encode a) →
      (read fields key path = .ok b ↔ b = a ∧ InRange a)) :
    Decode.nullable read fields key path = .ok out ↔ out = o ∧ ∀ a ∈ o, InRange a := by
  rw [nullable_eq_ok_iff]
  cases o with
  | none =>
      rw [h]
      simp [Api.Contract.nullable]
  | some a =>
      have hvalue : Json.field fields key = some (encode a) := h
      have hne : Json.field fields key ≠ some .null := by
        rw [hvalue]
        exact fun hsame => hnull a (Option.some.inj hsame)
      simp only [hne, false_and, false_or, ne_eq, not_false_eq_true, true_and,
        hread a _ hvalue]
      constructor
      · rintro ⟨b, ⟨rfl, hin⟩, rfl⟩
        exact ⟨rfl, fun c hc => Option.mem_some.mp hc ▸ hin⟩
      · rintro ⟨rfl, hin⟩
        exact ⟨a, ⟨rfl, hin a rfl⟩, rfl⟩

/-! ## Levels -/

instance (side : Side) : IsTrans Int (Follows side) where
  trans a b c hab hbc := by
    cases side with
    | bid =>
        have hab' : b < a := hab
        have hbc' : c < b := hbc
        show c < a
        omega
    | ask =>
        have hab' : a < b := hab
        have hbc' : b < c := hbc
        show a < c
        omega

/-- One level, and what is left to read after it. -/
theorem levelsFrom_cons {side : Side} {i : Nat} {previous : Option Int} {item : Json}
    {rest : List Json} {out : List Level} :
    levelsFrom side path i previous (item :: rest) = .ok out ↔ ∃ first second l later,
      item = .array [first, second] ∧ safeInteger (some first) = some l.price ∧
        safeInteger (some second) = some l.count ∧ IsPrice l.price ∧ IsCount l.count ∧
        (∀ before ∈ previous, Follows side before l.price) ∧
        levelsFrom side path (i + 1) (some l.price) rest = .ok later ∧ out = l :: later := by
  rw [levelsFrom.eq_def]
  simp only [bind_eq_ok_iff, array_eq_ok_iff]
  constructor
  · rintro ⟨pair, hitem, hread⟩
    split at hread
    · next first second =>
        simp only [bind_eq_ok_iff, integerValue_eq_ok_iff] at hread
        obtain ⟨p, ⟨hp, hprice⟩, n, ⟨hn, hcount⟩, hread⟩ := hread
        split at hread
        · next hfollows =>
            obtain ⟨later, hlater, hout⟩ := bind_eq_ok_iff.mp hread
            exact ⟨first, second, ⟨p, n⟩, later, Option.some.inj hitem, hp, hn, hprice, hcount,
              hfollows, hlater, (Except.ok.inj hout).symm⟩
        · cases hread
    · cases hread
  · rintro ⟨first, second, l, later, rfl, hp, hn, hprice, hcount, hfollows, hlater, rfl⟩
    refine ⟨[first, second], rfl, ?_⟩
    simp only [bind_eq_ok_iff, integerValue_eq_ok_iff]
    refine ⟨l.price, ⟨hp, hprice⟩, l.count, ⟨hn, hcount⟩, ?_⟩
    rw [if_pos hfollows, bind_eq_ok_iff]
    exact ⟨later, hlater, rfl⟩

/-- The prices of a ladder, after the one before them. -/
def Descends (side : Side) (previous : Option Int) (levels : List Level) : Prop :=
  (previous.toList ++ levels.map Level.price).IsChain (Follows side)

theorem descends_cons {side : Side} {previous : Option Int} {l : Level} {rest : List Level} :
    Descends side previous (l :: rest) ↔
      (∀ before ∈ previous, Follows side before l.price) ∧ Descends side (some l.price) rest := by
  unfold Descends
  cases previous with
  | none => simp
  | some before => simp [List.isChain_cons_cons]

theorem ladder_iff {side : Side} {l : List Level} :
    Ladder side l ↔
      (∀ level ∈ l, IsPrice level.price ∧ IsCount level.count) ∧ Descends side none l := by
  have hchain : Descends side none l ↔ (l.map Level.price).Pairwise (Follows side) :=
    List.isChain_iff_pairwise
  rw [hchain]
  exact ⟨fun h => ⟨h.inRange, h.ordered⟩, fun h => ⟨h.1, h.2⟩⟩

/-- What is read is in range, and in order. -/
theorem levelsFrom_good {side : Side} {i : Nat} {previous : Option Int} {items : List Json}
    {out : List Level} (h : levelsFrom side path i previous items = .ok out) :
    (∀ level ∈ out, IsPrice level.price ∧ IsCount level.count) ∧ Descends side previous out := by
  induction items generalizing i previous out with
  | nil =>
      obtain rfl := Except.ok.inj h
      refine ⟨fun _ hl => absurd hl List.not_mem_nil, ?_⟩
      unfold Descends
      cases previous with
      | none => simp
      | some before => simp
  | cons item rest ih =>
      obtain ⟨-, -, l, later, -, -, -, hprice, hcount, hfollows, hlater, rfl⟩ :=
        levelsFrom_cons.mp h
      obtain ⟨hrange, hrest⟩ := ih hlater
      exact ⟨List.forall_mem_cons.mpr ⟨⟨hprice, hcount⟩, hrange⟩,
        descends_cons.mpr ⟨hfollows, hrest⟩⟩

theorem IsPrice.safe (h : IsPrice n) : minSafeInteger ≤ n ∧ n ≤ maxSafeInteger := by
  unfold IsPrice maxPriceE4 at h
  unfold minSafeInteger maxSafeInteger
  omega

theorem IsCount.safe (h : IsCount n) : minSafeInteger ≤ n ∧ n ≤ maxSafeInteger := by
  unfold IsCount maxSafeInteger at h
  unfold minSafeInteger maxSafeInteger
  omega

/-- A ladder that was written is read back. -/
theorem levelsFrom_levels {side : Side} {i : Nat} {previous : Option Int} {l out : List Level} :
    levelsFrom side path i previous (l.map level) = .ok out ↔
      out = l ∧ (∀ level ∈ l, IsPrice level.price ∧ IsCount level.count) ∧
        Descends side previous l := by
  induction l generalizing i previous out with
  | nil =>
      have hempty : Descends side previous [] := by
        unfold Descends
        cases previous with
        | none => simp
        | some before => simp
      simp [levelsFrom, hempty, eq_comm]
  | cons l rest ih =>
      rw [List.map_cons, levelsFrom_cons]
      constructor
      · rintro ⟨first, second, l', later, hitem, hp, hn, hprice, hcount, hfollows, hlater, rfl⟩
        obtain ⟨rfl, rfl⟩ : int l.price = first ∧ int l.count = second := by
          simpa [level] using hitem
        rw [safeInteger_int] at hp hn
        split at hp
        · split at hn
          · have hsame : l = l' := by
              cases l
              cases l'
              simp only [Option.some.injEq] at hp hn
              simp [hp, hn]
            subst hsame
            obtain ⟨rfl, hrange, hrest⟩ := ih.mp hlater
            exact ⟨rfl, List.forall_mem_cons.mpr ⟨⟨hprice, hcount⟩, hrange⟩,
              descends_cons.mpr ⟨hfollows, hrest⟩⟩
          · cases hn
        · cases hp
      · rintro ⟨rfl, hrange, hdescends⟩
        obtain ⟨⟨hprice, hcount⟩, hrest⟩ := List.forall_mem_cons.mp hrange
        obtain ⟨hfollows, hlater⟩ := descends_cons.mp hdescends
        refine ⟨int l.price, int l.count, l, rest, rfl, ?_, ?_, hprice, hcount, hfollows,
          ih.mpr ⟨rfl, hrest, hlater⟩, rfl⟩
        · rw [safeInteger_int, if_pos hprice.safe]
        · rw [safeInteger_int, if_pos hcount.safe]

theorem levels_encoded {side : Side} {l out : List Level}
    (h : Json.field fields key = some (Api.Contract.levels l)) :
    levels side fields key path = .ok out ↔ out = l ∧ Ladder side l := by
  unfold levels
  rw [h, bind_eq_ok_iff, ladder_iff]
  constructor
  · rintro ⟨items, hitems, hread⟩
    rw [array_eq_ok_iff] at hitems
    obtain rfl := Json.array.inj (Option.some.inj hitems)
    exact levelsFrom_levels.mp hread
  · intro hgood
    exact ⟨l.map level, rfl, levelsFrom_levels.mpr hgood⟩

theorem levels_good {side : Side} {out : List Level}
    (h : levels side fields key path = .ok out) : Ladder side out := by
  unfold levels at h
  obtain ⟨items, -, hread⟩ := bind_eq_ok_iff.mp h
  exact ladder_iff.mpr (levelsFrom_good hread)

/-! ## Messages -/

theorem oneOf_encoded {allowed : List (String × α)} {a b : α}
    (h : Json.field fields key = some (.string s))
    (hnamed : allowed.find? (fun entry => entry.1 = s) = some (s, a)) :
    oneOf fields key path allowed = .ok b ↔ b = a := by
  rw [oneOf_eq_ok_iff]
  constructor
  · rintro ⟨s', entry, hs, hentry, rfl⟩
    rw [h] at hs
    obtain rfl := Json.string.inj (Option.some.inj hs)
    rw [← Option.some.inj (hnamed.symm.trans hentry)]
  · rintro rfl
    exact ⟨s, (s, b), h, hnamed, rfl⟩

theorem find_knownBookStates (state : Api.KnownBookState) :
    knownBookStates.find? (fun entry => entry.1 = knownBookStateText state) =
      some (knownBookStateText state, state) := by
  cases state
  · rfl
  · rfl

theorem find_sides (side : Side) :
    sides.find? (fun entry => entry.1 = sideText side) = some (sideText side, side) := by
  cases side
  · rfl
  · rfl

theorem find_bookStates (state : BookStatus) :
    bookStates.find? (fun entry => entry.1 = bookStateText state) =
      some (bookStateText state, state) := by
  cases state
  · rfl
  · rfl
  · rfl

theorem int_ne_null (n : Int) : int n ≠ .null := nofun

theorem nullableInteger_encoded {o out : Option Int}
    (h : Json.field fields key = some (Api.Contract.nullable int o)) :
    nullableInteger fields key path = .ok out ↔ out = o ∧ ∀ ms ∈ o, IsCount ms :=
  nullable_encoded int_ne_null h fun _ _ hvalue => count_int hvalue

theorem nullablePrice_encoded {o out : Option Int}
    (h : Json.field fields key = some (Api.Contract.nullable int o)) :
    nullablePrice fields key path = .ok out ↔ out = o ∧ ∀ p ∈ o, IsPrice p :=
  nullable_encoded int_ne_null h fun _ _ hvalue => price_int hvalue

theorem integer_good (h : integer lo hi fields key path = .ok n) : lo ≤ n ∧ n ≤ hi :=
  (integerValue_eq_ok_iff.mp h).2

theorem nullable_good {read : Fields → String → String → Decoded α} {InRange : α → Prop}
    {o : Option α} (h : Decode.nullable read fields key path = .ok o)
    (hread : ∀ a, read fields key path = .ok a → InRange a) : ∀ a ∈ o, InRange a := by
  rcases nullable_eq_ok_iff.mp h with ⟨-, rfl⟩ | ⟨-, a, ha, rfl⟩
  · exact fun _ h => by cases h
  · exact fun b hb => Option.mem_some.mp hb ▸ hread a ha

theorem nullableInteger_good {o : Option Int} (h : nullableInteger fields key path = .ok o) :
    ∀ ms ∈ o, IsCount ms :=
  nullable_good h fun _ => integer_good

theorem nullablePrice_good {o : Option Int} (h : nullablePrice fields key path = .ok o) :
    ∀ p ∈ o, IsPrice p :=
  nullable_good h fun _ => integer_good

theorem exact_ticker (i : Nat) : Json.Exact Json.string (ticker path i) (· ≠ "") where
  encoded s out := by
    unfold ticker
    split
    · next s' hs =>
        obtain rfl := Json.string.inj hs
        split
        · next hempty => exact ⟨nofun, fun h => absurd hempty h.2⟩
        · next hne =>
            constructor
            · intro h
              exact ⟨(Except.ok.inj h).symm, hne⟩
            · rintro ⟨rfl, -⟩
              rfl
    · next hother => exact absurd rfl (hother s)
  good item s h := by
    unfold ticker at h
    split at h
    · split at h
      · cases h
      · next hne =>
          obtain rfl := Except.ok.inj h
          exact hne
    · cases h

theorem exact_rejection (i : Nat) : Json.Exact Api.Contract.rejection (rejection path i)
    fun r => r.ticker ≠ "" where
  encoded r out := by
    have hticker : Json.field [("ticker", .string r.ticker), ("code", .string r.code)] "ticker" =
        some (.string r.ticker) := by simp
    have hcode : Json.field [("ticker", .string r.ticker), ("code", .string r.code)] "code" =
        some (.string r.code) := by simp
    unfold rejection Api.Contract.rejection
    simp only [bind_eq_ok_iff, record_eq_ok_iff]
    constructor
    · rintro ⟨fields, hfields, ticker, hread, code, hread', hout⟩
      obtain rfl := Json.object.inj (Option.some.inj hfields)
      obtain ⟨rfl, hne⟩ := (nonEmptyText_string hticker).mp hread
      obtain rfl := (text_string hcode).mp hread'
      exact ⟨(Except.ok.inj hout).symm, hne⟩
    · rintro ⟨rfl, hne⟩
      exact ⟨_, rfl, _, (nonEmptyText_string hticker).mpr ⟨rfl, hne⟩, _,
        (text_string hcode).mpr rfl, rfl⟩
  good item r h := by
    unfold rejection at h
    simp only [bind_eq_ok_iff] at h
    obtain ⟨fields, -, ticker, hticker, code, -, hout⟩ := h
    obtain rfl := Except.ok.inj hout
    exact (nonEmptyText_eq_ok_iff.mp hticker).2

/-- An array of items, read where it was written. -/
theorem items_encoded {decode : Nat → Json → Decoded α} {encode : α → Json}
    {InRange : α → Prop} (hitem : ∀ i, Json.Exact encode (decode i) InRange) {l out : List α}
    (h : Json.field fields key = some (.array (l.map encode))) :
    (array (Json.field fields key) path >>= Json.decodeItems decode 0) = .ok out ↔
      out = l ∧ ∀ a ∈ l, InRange a := by
  rw [h, bind_eq_ok_iff]
  constructor
  · rintro ⟨items, hitems, hread⟩
    rw [array_eq_ok_iff] at hitems
    obtain rfl := Json.array.inj (Option.some.inj hitems)
    exact (Json.decodeItems_map_iff hitem 0 l out).mp hread
  · intro hgood
    exact ⟨l.map encode, rfl, (Json.decodeItems_map_iff hitem 0 l out).mpr hgood⟩

/-! ## The messages that were written -/

section Encoded

variable (tag : Json) {out : ServerMessage}

theorem hello_encoded (protocol maxTickers busRefreshS : Int) :
    hello (("t", tag) :: (ServerMessage.hello protocol maxTickers busRefreshS).fields) path =
        .ok out ↔
      out = .hello protocol maxTickers busRefreshS ∧
        Good (.hello protocol maxTickers busRefreshS) := by
  let fields : Fields := ("t", tag) :: (ServerMessage.hello protocol maxTickers busRefreshS).fields
  have hprotocol : Json.field fields "protocol" = some (int protocol) := by
    simp [fields, ServerMessage.fields]
  have htickers : Json.field fields "max_tickers" = some (int maxTickers) := by
    simp [fields, ServerMessage.fields]
  have hrefresh : Json.field fields "bus_refresh_s" = some (int busRefreshS) := by
    simp [fields, ServerMessage.fields]
  show hello fields path = .ok out ↔ _
  unfold hello
  simp only [bind_eq_ok_iff, positive_int hprotocol, positive_int htickers, positive_int hrefresh]
  constructor
  · rintro ⟨_, ⟨rfl, h₁⟩, _, ⟨rfl, h₂⟩, _, ⟨rfl, h₃⟩, hout⟩
    exact ⟨(Except.ok.inj hout).symm, h₁, h₂, h₃⟩
  · rintro ⟨rfl, h₁, h₂, h₃⟩
    exact ⟨_, ⟨rfl, h₁⟩, _, ⟨rfl, h₂⟩, _, ⟨rfl, h₃⟩, rfl⟩

theorem subscribed_encoded (tickers : List String) (rejected : List Api.Rejection) :
    subscribed (("t", tag) :: (ServerMessage.subscribed tickers rejected).fields) path = .ok out ↔
      out = .subscribed tickers rejected ∧ Good (.subscribed tickers rejected) := by
  let fields : Fields := ("t", tag) :: (ServerMessage.subscribed tickers rejected).fields
  have htickers : Json.field fields "tickers" = some (.array (tickers.map .string)) := by
    simp [fields, ServerMessage.fields]
  have hrejected : Json.field fields "rejected" =
      some (.array (rejected.map Api.Contract.rejection)) := by
    simp [fields, ServerMessage.fields]
  have hlist : ∀ list, tickerList fields "tickers" path = .ok list ↔
      list = tickers ∧ ∀ ticker ∈ tickers, ticker ≠ "" := fun _ =>
    items_encoded exact_ticker htickers
  have hrejects : ∀ list, (array (Json.field fields "rejected") s!"{path}.rejected" >>=
      Json.decodeItems (rejection path) 0) = .ok list ↔
      list = rejected ∧ ∀ r ∈ rejected, r.ticker ≠ "" := fun _ =>
    items_encoded exact_rejection hrejected
  show subscribed fields path = .ok out ↔ _
  unfold subscribed
  simp only [bind_eq_ok_iff, hlist] at hrejects ⊢
  constructor
  · rintro ⟨_, ⟨rfl, h₁⟩, items, hitems, list, hread, hout⟩
    obtain ⟨rfl, h₂⟩ := (hrejects list).mp ⟨items, hitems, hread⟩
    exact ⟨(Except.ok.inj hout).symm, h₁, h₂⟩
  · rintro ⟨rfl, h₁, h₂⟩
    obtain ⟨items, hitems, hread⟩ := (hrejects rejected).mpr ⟨rfl, h₂⟩
    exact ⟨_, ⟨rfl, h₁⟩, items, hitems, _, hread, rfl⟩

theorem snapshot_encoded (market : String) (state : Api.KnownBookState) (tsMs : Option Int)
    (bids asks : List Level) :
    snapshot (("t", tag) :: (ServerMessage.snapshot market state tsMs bids asks).fields) path =
        .ok out ↔
      out = .snapshot market state tsMs bids asks ∧
        Good (.snapshot market state tsMs bids asks) := by
  let fields : Fields := ("t", tag) :: (ServerMessage.snapshot market state tsMs bids asks).fields
  have hmarket : Json.field fields "ticker" = some (.string market) := by
    simp [fields, ServerMessage.fields]
  have hstate : Json.field fields "book" = some (.string (knownBookStateText state)) := by
    simp [fields, ServerMessage.fields]
  have htsMs : Json.field fields "ts_ms" = some (Api.Contract.nullable int tsMs) := by
    simp [fields, ServerMessage.fields]
  have hbids : Json.field fields "bids" = some (Api.Contract.levels bids) := by
    simp [fields, ServerMessage.fields]
  have hasks : Json.field fields "asks" = some (Api.Contract.levels asks) := by
    simp [fields, ServerMessage.fields]
  show snapshot fields path = .ok out ↔ _
  unfold snapshot
  simp only [bind_eq_ok_iff, nonEmptyText_string hmarket,
    oneOf_encoded hstate (find_knownBookStates state), nullableInteger_encoded htsMs,
    levels_encoded hbids, levels_encoded hasks]
  constructor
  · rintro ⟨_, ⟨rfl, h₁⟩, _, rfl, _, ⟨rfl, h₂⟩, _, ⟨rfl, h₃⟩, _, ⟨rfl, h₄⟩, hout⟩
    exact ⟨(Except.ok.inj hout).symm, h₁, h₂, h₃, h₄⟩
  · rintro ⟨rfl, h₁, h₂, h₃, h₄⟩
    exact ⟨_, ⟨rfl, h₁⟩, _, rfl, _, ⟨rfl, h₂⟩, _, ⟨rfl, h₃⟩, _, ⟨rfl, h₄⟩, rfl⟩

theorem delta_encoded (market : String) (tsMs : Option Int) (side : Side) (priceE4 deltaE2 : Int) :
    delta (("t", tag) :: (ServerMessage.delta market tsMs side priceE4 deltaE2).fields) path =
        .ok out ↔
      out = .delta market tsMs side priceE4 deltaE2 ∧
        Good (.delta market tsMs side priceE4 deltaE2) := by
  let fields : Fields := ("t", tag) :: (ServerMessage.delta market tsMs side priceE4 deltaE2).fields
  have hmarket : Json.field fields "ticker" = some (.string market) := by
    simp [fields, ServerMessage.fields]
  have htsMs : Json.field fields "ts_ms" = some (Api.Contract.nullable int tsMs) := by
    simp [fields, ServerMessage.fields]
  have hside : Json.field fields "side" = some (.string (sideText side)) := by
    simp [fields, ServerMessage.fields]
  have hprice : Json.field fields "price_e4" = some (int priceE4) := by
    simp [fields, ServerMessage.fields]
  have hdelta : Json.field fields "delta_e2" = some (int deltaE2) := by
    simp [fields, ServerMessage.fields]
  show delta fields path = .ok out ↔ _
  unfold delta
  simp only [bind_eq_ok_iff, nonEmptyText_string hmarket, nullableInteger_encoded htsMs,
    oneOf_encoded hside (find_sides side), price_int hprice, integer_int hdelta le_rfl le_rfl]
  constructor
  · rintro ⟨_, ⟨rfl, h₁⟩, _, ⟨rfl, h₂⟩, _, rfl, _, ⟨rfl, h₃⟩, _, ⟨rfl, h₄⟩, hout⟩
    exact ⟨(Except.ok.inj hout).symm, h₁, h₂, h₃, h₄⟩
  · rintro ⟨rfl, h₁, h₂, h₃, h₄⟩
    exact ⟨_, ⟨rfl, h₁⟩, _, ⟨rfl, h₂⟩, _, rfl, _, ⟨rfl, h₃⟩, _, ⟨rfl, h₄⟩, rfl⟩

theorem book_encoded (market : String) (state : Api.KnownBookState) :
    book (("t", tag) :: (ServerMessage.book market state).fields) path = .ok out ↔
      out = .book market state ∧ Good (.book market state) := by
  let fields : Fields := ("t", tag) :: (ServerMessage.book market state).fields
  have hmarket : Json.field fields "ticker" = some (.string market) := by
    simp [fields, ServerMessage.fields]
  have hstate : Json.field fields "book" = some (.string (knownBookStateText state)) := by
    simp [fields, ServerMessage.fields]
  show book fields path = .ok out ↔ _
  unfold book
  simp only [bind_eq_ok_iff, nonEmptyText_string hmarket,
    oneOf_encoded hstate (find_knownBookStates state)]
  constructor
  · rintro ⟨_, ⟨rfl, h₁⟩, _, rfl, hout⟩
    exact ⟨(Except.ok.inj hout).symm, h₁⟩
  · rintro ⟨rfl, h₁⟩
    exact ⟨_, ⟨rfl, h₁⟩, _, rfl, rfl⟩

theorem resync_encoded (market reason : String) :
    resync (("t", tag) :: (ServerMessage.resync market reason).fields) path = .ok out ↔
      out = .resync market reason ∧ Good (.resync market reason) := by
  let fields : Fields := ("t", tag) :: (ServerMessage.resync market reason).fields
  have hmarket : Json.field fields "ticker" = some (.string market) := by
    simp [fields, ServerMessage.fields]
  have hreason : Json.field fields "reason" = some (.string reason) := by
    simp [fields, ServerMessage.fields]
  show resync fields path = .ok out ↔ _
  unfold resync
  simp only [bind_eq_ok_iff, nonEmptyText_string hmarket, text_string hreason]
  constructor
  · rintro ⟨_, ⟨rfl, h₁⟩, _, rfl, hout⟩
    exact ⟨(Except.ok.inj hout).symm, h₁⟩
  · rintro ⟨rfl, h₁⟩
    exact ⟨_, ⟨rfl, h₁⟩, _, rfl, rfl⟩

theorem trade_encoded (m : TradeMessage) :
    trade (("t", tag) :: (ServerMessage.trade m).fields) path = .ok out ↔
      out = .trade m ∧ Good (.trade m) := by
  let fields : Fields := ("t", tag) :: (ServerMessage.trade m).fields
  have hticker : Json.field fields "ticker" = some (.string m.ticker) := by
    simp [fields, ServerMessage.fields]
  have htsMs : Json.field fields "ts_ms" = some (int m.tsMs) := by
    simp [fields, ServerMessage.fields]
  have hprice : Json.field fields "price_e4" = some (int m.priceE4) := by
    simp [fields, ServerMessage.fields]
  have hcount : Json.field fields "count_e2" = some (int m.countE2) := by
    simp [fields, ServerMessage.fields]
  have hside : Json.field fields "taker_side" = some (.string (sideText m.takerSide)) := by
    simp [fields, ServerMessage.fields]
  show trade fields path = .ok out ↔ _
  unfold trade
  simp only [bind_eq_ok_iff, nonEmptyText_string hticker, count_int htsMs, price_int hprice,
    positive_int hcount, oneOf_encoded hside (find_sides m.takerSide)]
  constructor
  · rintro ⟨_, ⟨rfl, h₁⟩, _, ⟨rfl, h₂⟩, _, ⟨rfl, h₃⟩, _, ⟨rfl, h₄⟩, _, rfl, hout⟩
    exact ⟨(Except.ok.inj hout).symm, h₁, h₂, h₃, h₄⟩
  · rintro ⟨rfl, h₁, h₂, h₃, h₄⟩
    exact ⟨_, ⟨rfl, h₁⟩, _, ⟨rfl, h₂⟩, _, ⟨rfl, h₃⟩, _, ⟨rfl, h₄⟩, _, rfl, rfl⟩

theorem tickerUpdate_encoded (m : TickerMessage) :
    tickerUpdate (("t", tag) :: (ServerMessage.ticker m).fields) path = .ok out ↔
      out = .ticker m ∧ Good (.ticker m) := by
  let fields : Fields := ("t", tag) :: (ServerMessage.ticker m).fields
  have hticker : Json.field fields "ticker" = some (.string m.ticker) := by
    simp [fields, ServerMessage.fields]
  have htsMs : Json.field fields "ts_ms" = some (int m.tsMs) := by
    simp [fields, ServerMessage.fields]
  have hbid : Json.field fields "bid_e4" = some (Api.Contract.nullable int m.bidE4) := by
    simp [fields, ServerMessage.fields]
  have hask : Json.field fields "ask_e4" = some (Api.Contract.nullable int m.askE4) := by
    simp [fields, ServerMessage.fields]
  have hlast : Json.field fields "last_e4" = some (Api.Contract.nullable int m.lastE4) := by
    simp [fields, ServerMessage.fields]
  have hvolume : Json.field fields "volume_e2" = some (int m.volumeE2) := by
    simp [fields, ServerMessage.fields]
  show tickerUpdate fields path = .ok out ↔ _
  unfold tickerUpdate
  simp only [bind_eq_ok_iff, nonEmptyText_string hticker, count_int htsMs,
    nullablePrice_encoded hbid, nullablePrice_encoded hask, nullablePrice_encoded hlast,
    count_int hvolume]
  constructor
  · rintro ⟨_, ⟨rfl, h₁⟩, _, ⟨rfl, h₂⟩, _, ⟨rfl, h₃⟩, _, ⟨rfl, h₄⟩, _, ⟨rfl, h₅⟩, _, ⟨rfl, h₆⟩,
      hout⟩
    exact ⟨(Except.ok.inj hout).symm, h₁, h₂, h₃, h₄, h₅, h₆⟩
  · rintro ⟨rfl, h₁, h₂, h₃, h₄, h₅, h₆⟩
    exact ⟨_, ⟨rfl, h₁⟩, _, ⟨rfl, h₂⟩, _, ⟨rfl, h₃⟩, _, ⟨rfl, h₄⟩, _, ⟨rfl, h₅⟩, _, ⟨rfl, h₆⟩, rfl⟩

theorem error_encoded (code message : String) :
    error (("t", tag) :: (ServerMessage.error code message).fields) path = .ok out ↔
      out = .error code message ∧ Good (.error code message) := by
  let fields : Fields := ("t", tag) :: (ServerMessage.error code message).fields
  have hcode : Json.field fields "code" = some (.string code) := by
    simp [fields, ServerMessage.fields]
  have hmessage : Json.field fields "message" = some (.string message) := by
    simp [fields, ServerMessage.fields]
  show error fields path = .ok out ↔ _
  unfold error
  simp only [bind_eq_ok_iff, text_string hcode, text_string hmessage]
  constructor
  · rintro ⟨_, rfl, _, rfl, hout⟩
    exact ⟨(Except.ok.inj hout).symm, trivial⟩
  · rintro ⟨rfl, -⟩
    exact ⟨_, rfl, _, rfl, rfl⟩

end Encoded

/-! ## What is read is good -/

section Read

variable {m : ServerMessage}

theorem items_good {decode : Nat → Json → Decoded α} {encode : α → Json} {InRange : α → Prop}
    (hitem : ∀ i, Json.Exact encode (decode i) InRange) {items : List Json} {l : List α}
    (h : Json.decodeItems decode 0 items = .ok l) : ∀ a ∈ l, InRange a :=
  Json.good_of_decodeItems (fun i => (hitem i).good) h

theorem hello_good (h : hello fields path = .ok m) : Good m := by
  unfold hello at h
  simp only [bind_eq_ok_iff] at h
  obtain ⟨protocol, h₁, maxTickers, h₂, busRefreshS, h₃, hout⟩ := h
  obtain rfl := Except.ok.inj hout
  exact ⟨integer_good h₁, integer_good h₂, integer_good h₃⟩

theorem subscribed_good (h : subscribed fields path = .ok m) : Good m := by
  unfold subscribed tickerList at h
  simp only [bind_eq_ok_iff] at h
  obtain ⟨tickers, ⟨items, -, h₁⟩, items', -, rejected, h₂, hout⟩ := h
  obtain rfl := Except.ok.inj hout
  exact ⟨items_good exact_ticker h₁, items_good exact_rejection h₂⟩

theorem snapshot_good (h : snapshot fields path = .ok m) : Good m := by
  unfold snapshot at h
  simp only [bind_eq_ok_iff] at h
  obtain ⟨market, h₁, state, -, tsMs, h₂, bids, h₃, asks, h₄, hout⟩ := h
  obtain rfl := Except.ok.inj hout
  exact ⟨(nonEmptyText_eq_ok_iff.mp h₁).2, nullableInteger_good h₂, levels_good h₃, levels_good h₄⟩

theorem delta_good (h : delta fields path = .ok m) : Good m := by
  unfold delta at h
  simp only [bind_eq_ok_iff] at h
  obtain ⟨market, h₁, tsMs, h₂, side, -, priceE4, h₃, deltaE2, h₄, hout⟩ := h
  obtain rfl := Except.ok.inj hout
  exact ⟨(nonEmptyText_eq_ok_iff.mp h₁).2, nullableInteger_good h₂, integer_good h₃,
    integer_good h₄⟩

theorem book_good (h : book fields path = .ok m) : Good m := by
  unfold book at h
  simp only [bind_eq_ok_iff] at h
  obtain ⟨market, h₁, state, -, hout⟩ := h
  obtain rfl := Except.ok.inj hout
  exact (nonEmptyText_eq_ok_iff.mp h₁).2

theorem resync_good (h : resync fields path = .ok m) : Good m := by
  unfold resync at h
  simp only [bind_eq_ok_iff] at h
  obtain ⟨market, h₁, reason, -, hout⟩ := h
  obtain rfl := Except.ok.inj hout
  exact (nonEmptyText_eq_ok_iff.mp h₁).2

theorem trade_good (h : trade fields path = .ok m) : Good m := by
  unfold trade at h
  simp only [bind_eq_ok_iff] at h
  obtain ⟨market, h₁, tsMs, h₂, priceE4, h₃, countE2, h₄, takerSide, -, hout⟩ := h
  obtain rfl := Except.ok.inj hout
  exact ⟨(nonEmptyText_eq_ok_iff.mp h₁).2, integer_good h₂, integer_good h₃, integer_good h₄⟩

theorem tickerUpdate_good (h : tickerUpdate fields path = .ok m) : Good m := by
  unfold tickerUpdate at h
  simp only [bind_eq_ok_iff] at h
  obtain ⟨market, h₁, tsMs, h₂, bidE4, h₃, askE4, h₄, lastE4, h₅, volumeE2, h₆, hout⟩ := h
  obtain rfl := Except.ok.inj hout
  exact ⟨(nonEmptyText_eq_ok_iff.mp h₁).2, integer_good h₂, nullablePrice_good h₃,
    nullablePrice_good h₄, nullablePrice_good h₅, integer_good h₆⟩

theorem error_good (h : error fields path = .ok m) : Good m := by
  unfold error at h
  simp only [bind_eq_ok_iff] at h
  obtain ⟨code, -, message, -, hout⟩ := h
  obtain rfl := Except.ok.inj hout
  trivial

theorem serverMessage_good {type : String} (h : serverMessage fields type = .ok (some m)) :
    Good m := by
  unfold serverMessage at h
  split at h
  · cases h
  · next entry hentry =>
      obtain ⟨message, hmessage, hsame⟩ := map_eq_ok_iff.mp h
      obtain rfl := Option.some.inj hsame
      have hdecoder := List.mem_of_find?_eq_some hentry
      simp only [messageDecoders, List.mem_cons, List.not_mem_nil, or_false] at hdecoder
      rcases hdecoder with rfl | rfl | rfl | rfl | rfl | rfl | rfl | rfl | rfl
      · exact hello_good hmessage
      · exact subscribed_good hmessage
      · exact snapshot_good hmessage
      · exact delta_good hmessage
      · exact book_good hmessage
      · exact resync_good hmessage
      · exact trade_good hmessage
      · exact tickerUpdate_good hmessage
      · exact error_good hmessage

end Read

/-! ## Frames -/

/-- A message under its tag is read by the decoder of its type. -/
theorem serverMessage_encoded (m : ServerMessage) (tag : Json) (out : Option ServerMessage) :
    serverMessage (("t", tag) :: m.fields) m.tag = .ok out ↔ out = some m ∧ Good m := by
  have hmap : ∀ decode : Fields → String → Decoded ServerMessage,
      messageDecoders.find? (fun entry => entry.1 = m.tag) = some (m.tag, decode) →
      (∀ {out}, decode (("t", tag) :: m.fields) m.tag = .ok out ↔ out = m ∧ Good m) →
        (serverMessage (("t", tag) :: m.fields) m.tag = .ok out ↔ out = some m ∧ Good m) := by
    intro decode hdecoder hreads
    unfold serverMessage
    rw [hdecoder]
    dsimp only
    simp only [map_eq_ok_iff, hreads]
    constructor
    · rintro ⟨_, ⟨rfl, hgood⟩, rfl⟩
      exact ⟨rfl, hgood⟩
    · rintro ⟨rfl, hgood⟩
      exact ⟨m, ⟨rfl, hgood⟩, rfl⟩
  cases m with
  | hello protocol maxTickers busRefreshS =>
      exact hmap hello rfl (hello_encoded tag protocol maxTickers busRefreshS)
  | subscribed tickers rejected =>
      exact hmap subscribed rfl (subscribed_encoded tag tickers rejected)
  | snapshot market state tsMs bids asks =>
      exact hmap snapshot rfl (snapshot_encoded tag market state tsMs bids asks)
  | delta market tsMs side priceE4 deltaE2 =>
      exact hmap delta rfl (delta_encoded tag market tsMs side priceE4 deltaE2)
  | book market state => exact hmap book rfl (book_encoded tag market state)
  | resync market reason => exact hmap resync rfl (resync_encoded tag market reason)
  | trade m => exact hmap trade rfl (trade_encoded tag m)
  | ticker m => exact hmap tickerUpdate rfl (tickerUpdate_encoded tag m)
  | error code message => exact hmap error rfl (error_encoded tag code message)

/-- What a frame with a message comes to: the message, or the first violation. -/
theorem decodeFrame_encode (m : ServerMessage) :
    (Good m → decodeFrame (.json m.encode) = .message m) ∧
      (¬ Good m → ∃ e, decodeFrame (.json m.encode) = .malformed e) := by
  have htag : ∀ fields : Fields, fields = ("t", .string m.tag) :: m.fields →
      text fields "t" "message" = .ok m.tag := by
    rintro fields rfl
    rw [text_eq_ok_iff]
    cases m <;> simp [ServerMessage.fields, ServerMessage.tag]
  have hframe : decodeFrame (.json m.encode) =
      match serverMessage (("t", .string m.tag) :: m.fields) m.tag with
      | .error e => .malformed e
      | .ok none => .ignored m.tag
      | .ok (some message) => .message message := by
    unfold decodeFrame ServerMessage.encode
    dsimp only
    rw [record]
    dsimp only [bind, Except.bind]
    rw [htag _ rfl]
    dsimp only
    cases serverMessage (("t", .string m.tag) :: m.fields) m.tag with
    | error e => rfl
    | ok o =>
        cases o with
        | none => rfl
        | some message => rfl
  rw [hframe]
  constructor
  · intro hgood
    rw [(serverMessage_encoded m (.string m.tag) (some m)).mpr ⟨rfl, hgood⟩]
  · intro hbad
    cases hread : serverMessage (("t", .string m.tag) :: m.fields) m.tag with
    | error e => exact ⟨e, rfl⟩
    | ok out => exact absurd ((serverMessage_encoded m (.string m.tag) out).mp hread).2 hbad

theorem decodeFrame_good {frame : Frame} {m : ServerMessage}
    (h : decodeFrame frame = .message m) : Good m := by
  cases frame with
  | notText => cases h
  | notJson => cases h
  | json value =>
      unfold decodeFrame at h
      dsimp only at h
      split at h
      · cases h
      · cases h
      · next type message hread =>
          obtain rfl := FrameDecoding.message.inj h
          simp only [bind_eq_ok_iff] at hread
          obtain ⟨fields, -, type', -, out, hmessage, hpair⟩ := hread
          obtain ⟨rfl, rfl⟩ := Prod.mk.inj (Except.ok.inj hpair)
          exact serverMessage_good hmessage

/-- A message is read back as it was written if it is in range, and is a
violation otherwise. Whatever frame a message was read from, the message is in
range, and what the server would write of it is read the same. -/
theorem decodeFrame_exact :
    (∀ m, decodeFrame (.json m.encode) = .message m ↔ Good m) ∧
      (∀ m, (∃ e, decodeFrame (.json m.encode) = .malformed e) ↔ ¬ Good m) ∧
      ∀ frame m, decodeFrame frame = .message m →
        Good m ∧ decodeFrame (.json m.encode) = .message m := by
  refine ⟨fun m => ⟨decodeFrame_good, (decodeFrame_encode m).1⟩, fun m => ⟨?_, ?_⟩, ?_⟩
  · rintro ⟨e, he⟩ hgood
    rw [(decodeFrame_encode m).1 hgood] at he
    cases he
  · exact (decodeFrame_encode m).2
  · intro frame m h
    have hgood := decodeFrame_good h
    exact ⟨hgood, (decodeFrame_encode m).1 hgood⟩

end Tape.Page.Decode
