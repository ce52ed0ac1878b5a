import Tape.Run
import Tape.Web.DepthHistory
import Tape.Web.Ranges

/-!
# Uploading what changed

The renderer keeps copies of a depth history and a trade tape on the graphics
card, and copies at each frame only the ranges that changed. A column changed
if its revision is not the one uploaded; a trade slot, if the write counter
passed it since.

A revision is a 32-bit word, so it tells of a column's writes only if fewer
than 2^32 came since the last upload, and the first upload takes the word
2^32 - 1 for a column never uploaded. The count of these writes is carried
along a run (`since`); the code has no such count.

Storage of the graphics card starts as zeros, as its interface says.
-/

namespace Tape.Web

/-- A call that writes a depth history; a profile has as many values as there
are rows. -/
inductive Write (α : Type) (rows : Nat) where
  | advanceTo (bin : Int) (status : Nat)
  | setEdgeStatus (status : Nat)
  | setHeadRow (row : Fin rows) (value : α)
  | setHeadProfile (values : Vector α rows)
  | setHeadQuotes (bestBid bestAsk : Option Nat)
  | raiseHeadStatus (status : Nat)

namespace DepthHistory

variable {α : Type} {rows : Nat}

/-- One write of the history. -/
def perform [Zero α] (h : DepthHistory α) : Write α rows → DepthHistory α
  | .advanceTo bin status => h.advanceTo bin status
  | .setEdgeStatus status => h.setEdgeStatus status
  | .setHeadRow row value => h.setHeadRow row value
  | .setHeadProfile values => h.setHeadProfile values.toList
  | .setHeadQuotes bestBid bestAsk => h.setHeadQuotes bestBid bestAsk
  | .raiseHeadStatus status => h.raiseHeadStatus status

/-- The columns a call writes, in its order. -/
def columnsOf (h : DepthHistory α) : Write α rows → List Nat
  | .advanceTo bin _ => h.advanceColumns bin
  | .setEdgeStatus _ => []
  | .setHeadRow _ _ => h.head.toList
  | .setHeadProfile _ => h.head.toList
  | .setHeadQuotes bestBid bestAsk => h.head.toList.filter fun c =>
      ¬ ((h.column c).bestBid = (bestBid.map Int.ofNat).getD noPrice ∧
        (h.column c).bestAsk = (bestAsk.map Int.ofNat).getD noPrice)
  | .raiseHeadStatus status => h.head.toList.filter fun c => ¬ (h.column c).status ≥ status

theorem writes_perform [Zero α] {h : DepthHistory α} (hwords : h.Words) (w : Write α rows) :
    Writes h (h.perform w) (h.columnsOf w) := by
  have hnone : Writes h h [] := writes_nil hwords rfl rfl rfl rfl
  cases w with
  | advanceTo bin status => exact writes_advanceTo hwords bin status
  | setEdgeStatus status => exact writes_nil hwords rfl rfl rfl rfl
  | setHeadRow row value =>
      rw [perform, columnsOf, setHeadRow]
      cases h.head with
      | none => exact hnone
      | some c => exact writes_write hwords c _
  | setHeadProfile values =>
      rw [perform, columnsOf, setHeadProfile]
      cases h.head with
      | none => exact hnone
      | some c => exact writes_write hwords c _
  | setHeadQuotes bestBid bestAsk =>
      rw [perform, columnsOf, setHeadQuotes]
      cases h.head with
      | none => exact hnone
      | some c =>
          dsimp only [Option.toList]
          split
          · next hsame =>
              rw [List.filter_cons_of_neg (by simpa using hsame)]
              exact hnone
          · next hdiffers =>
              rw [List.filter_cons, if_pos (decide_eq_true hdiffers)]
              exact writes_write hwords c _
  | raiseHeadStatus status =>
      rw [perform, columnsOf, raiseHeadStatus]
      cases h.head with
      | none => exact hnone
      | some c =>
          dsimp only [Option.toList]
          split
          · next hworse =>
              rw [List.filter_cons_of_neg (by simpa using hworse)]
              exact hnone
          · next hbetter =>
              rw [List.filter_cons, if_pos (decide_eq_true hbetter)]
              exact writes_write hwords c _

end DepthHistory

/-- `TradeTape`, as far as it is uploaded. -/
structure TradeTape (β : Type) where
  capacity : Nat
  instances : Nat → β
  writeCount : Nat

namespace TradeTape

variable {β : Type}

/-- A tape without trades. -/
def new [Zero β] (capacity : Nat) : TradeTape β where
  capacity := capacity
  instances _ := 0
  writeCount := 0

/-- `append` of a trade as it is packed. -/
def append (t : TradeTape β) (packed : β) : TradeTape β :=
  { t with
    instances := Function.update t.instances (t.writeCount % t.capacity) packed
    writeCount := t.writeCount + 1 }

end TradeTape

/-- What is on the graphics card, and what is known to be there. -/
structure SourceUpload (α β : Type) where
  depth : Nat → List α
  metas : Nat → Int × Int × Nat
  uploadedRevisions : Nat → Nat
  trades : Nat → β
  uploadedTrades : Nat

/-- What is uploaded of a column beside its depth. -/
def Column.metas {α : Type} (c : Column α) : Int × Int × Nat := (c.bestBid, c.bestAsk, c.status)

/-- How many ranges are uploaded one by one. -/
def maxUploadRanges : Nat := 24

/-- Ranges copied from one array into another. -/
def copyRanges {γ : Type} (source : Nat → γ) (ranges : List UploadRange) (target : Nat → γ) :
    Nat → γ :=
  ranges.foldl
    (fun target r slot =>
      if r.start ≤ slot ∧ slot < r.start + r.count then source slot else target slot) target

namespace SourceUpload

variable {α β : Type}

/-- `#prepareUpload` of a source not uploaded yet. -/
def prepare [Zero α] [Zero β] (h : DepthHistory α) : SourceUpload α β where
  depth _ := List.replicate h.rows 0
  metas _ := (0, 0, 0)
  uploadedRevisions _ := 0xffffffff
  trades _ := 0
  uploadedTrades := 0

/-- The columns to upload. -/
def columnRanges (u : SourceUpload α β) (h : DepthHistory α) : List UploadRange :=
  dirtyColumnRanges h.capacity h.revision u.uploadedRevisions maxUploadRanges

/-- `#uploadColumns`. -/
def uploadColumns (u : SourceUpload α β) (h : DepthHistory α) : SourceUpload α β :=
  if u.columnRanges h = [] then u
  else
    { u with
      depth := copyRanges (fun c => (h.column c).depth) (u.columnRanges h) u.depth
      metas c := if c < h.capacity then (h.column c).metas else u.metas c
      uploadedRevisions := h.revision }

/-- The trades to upload. -/
def tradeRanges (u : SourceUpload α β) (t : TradeTape β) : List UploadRange :=
  ringWriteRanges u.uploadedTrades t.writeCount t.capacity

/-- `#uploadTrades`. -/
def uploadTrades (u : SourceUpload α β) (t : TradeTape β) : SourceUpload α β :=
  if u.tradeRanges t = [] then u
  else
    { u with
      trades := copyRanges t.instances (u.tradeRanges t) u.trades
      uploadedTrades := t.writeCount }

end SourceUpload

theorem copyRanges_covered {γ : Type} {source target : Nat → γ} {ranges : List UploadRange}
    {slot : Nat} (h : Covered ranges slot ∨ target slot = source slot) :
    copyRanges source ranges target slot = source slot := by
  induction ranges generalizing target with
  | nil =>
      rcases h with ⟨r, hr, -⟩ | heq
      · cases hr
      · exact heq
  | cons r ranges ih =>
      refine ih ?_
      by_cases hcovers : r.start ≤ slot ∧ slot < r.start + r.count
      · exact .inr (if_pos hcovers)
      · rcases h with ⟨r', hr', hin⟩ | heq
        · rcases List.mem_cons.mp hr' with rfl | hrest
          · exact absurd hin hcovers
          · exact .inl ⟨r', hrest, hin⟩
        · exact .inr ((if_neg hcovers).trans heq)

namespace SourceUpload

variable {α β : Type}

theorem uploadColumns_trades (u : SourceUpload α β) (h : DepthHistory α) :
    (u.uploadColumns h).trades = u.trades ∧
      (u.uploadColumns h).uploadedTrades = u.uploadedTrades := by
  rw [uploadColumns]
  split
  · exact ⟨rfl, rfl⟩
  · exact ⟨rfl, rfl⟩

theorem uploadTrades_columns (u : SourceUpload α β) (t : TradeTape β) :
    (u.uploadTrades t).depth = u.depth ∧ (u.uploadTrades t).metas = u.metas ∧
      (u.uploadTrades t).uploadedRevisions = u.uploadedRevisions := by
  rw [uploadTrades]
  split
  · exact ⟨rfl, rfl, rfl⟩
  · exact ⟨rfl, rfl, rfl⟩

/-- Uploading the slots written makes every copy right. -/
theorem uploadTrades_spec {u : SourceUpload α β} {t : TradeTape β}
    (hcounter : u.uploadedTrades ≤ t.writeCount)
    (hsame : ∀ slot < t.capacity, (∀ n, u.uploadedTrades ≤ n → n < t.writeCount →
      n % t.capacity ≠ slot) → u.trades slot = t.instances slot) :
    (u.uploadTrades t).uploadedTrades = t.writeCount ∧
      ∀ slot < t.capacity, (u.uploadTrades t).trades slot = t.instances slot := by
  obtain ⟨-, hcovered⟩ := ringWriteRanges_spec u.uploadedTrades t.writeCount t.capacity
  rw [uploadTrades]
  split
  · next hempty =>
      have hnone : ringWriteRanges u.uploadedTrades t.writeCount t.capacity = [] := hempty
      have hstill : t.writeCount ≤ u.uploadedTrades := by
        by_contra hmore
        rw [ringWriteRanges, if_neg hmore] at hnone
        dsimp only at hnone
        split at hnone
        · cases hnone
        · split at hnone <;> cases hnone
      refine ⟨Nat.le_antisymm hcounter hstill, fun slot hslot => hsame slot hslot ?_⟩
      intro n hfrom hto
      omega
  · refine ⟨rfl, fun slot hslot => copyRanges_covered ?_⟩
    by_cases hwritten : ∃ n, u.uploadedTrades ≤ n ∧ n < t.writeCount ∧ n % t.capacity = slot
    · obtain ⟨n, hfrom, hto, rfl⟩ := hwritten
      exact .inl (hcovered n hfrom hto (Nat.zero_lt_of_lt hslot))
    · refine .inr (hsame slot hslot fun n hfrom hto heq => hwritten ⟨n, hfrom, hto, heq⟩)

end SourceUpload

/-- A history and a tape, their copies, and how often each column was written
since the last upload. -/
structure Drawing (α β : Type) where
  history : DepthHistory α
  tape : TradeTape β
  upload : Option (SourceUpload α β)
  since : Nat → Nat

/-- What happens between two frames, and a frame. -/
inductive DrawAct (α β : Type) (rows : Nat) where
  | write (w : Write α rows)
  | append (packed : β)
  | render

namespace Drawing

variable {α β : Type} [Zero α] [Zero β] {rows : Nat}

/-- A picture of which nothing was drawn. -/
def new (capacity rows tradeCapacity : Nat) : Drawing α β where
  history := .new capacity rows
  tape := .new tradeCapacity
  upload := none
  since _ := 0

/-- The copies a frame starts from. -/
def copies (d : Drawing α β) : SourceUpload α β := d.upload.getD (.prepare d.history)

/-- One act. -/
def step (d : Drawing α β) : DrawAct α β rows → Drawing α β
  | .write w =>
      { d with
        history := d.history.perform w
        since := fun c => d.since c + (d.history.columnsOf w).count c }
  | .append packed => { d with tape := d.tape.append packed }
  | .render =>
      { d with
        upload := some ((d.copies.uploadColumns d.history).uploadTrades d.tape)
        since := fun _ => 0 }

/-- No column was written so often since the last upload that its revision no
longer tells. -/
def Few (d : Drawing α β) : Prop := ∀ c < d.history.capacity, d.since c < 2 ^ 32 - 1

/-- The copies are the arrays. -/
structure Equal (d : Drawing α β) (u : SourceUpload α β) : Prop where
  depth : ∀ c < d.history.capacity, u.depth c = (d.history.column c).depth
  metas : ∀ c < d.history.capacity, u.metas c = (d.history.column c).metas
  trades : ∀ slot < d.tape.capacity, u.trades slot = d.tape.instances slot

/-- What the copies are worth between two uploads. -/
structure Tracked (d : Drawing α β) : Prop where
  words : d.history.Words
  /-- A column not written since the last upload is as it was uploaded; one
  never uploaded has its count for a revision. -/
  columns : ∀ c < d.history.capacity,
    match d.upload with
    | none => d.history.revision c = d.since c % 2 ^ 32
    | some u => u.uploadedRevisions c < 2 ^ 32 ∧
        d.history.revision c = (u.uploadedRevisions c + d.since c) % 2 ^ 32 ∧
        (d.since c = 0 →
          u.depth c = (d.history.column c).depth ∧ u.metas c = (d.history.column c).metas)
  counter : d.copies.uploadedTrades ≤ d.tape.writeCount
  /-- A slot not written since is as it was uploaded. -/
  trades : ∀ slot < d.tape.capacity,
    (∀ n, d.copies.uploadedTrades ≤ n → n < d.tape.writeCount → n % d.tape.capacity ≠ slot) →
      d.copies.trades slot = d.tape.instances slot

theorem tracked_new (capacity rows tradeCapacity : Nat) :
    (new capacity rows tradeCapacity : Drawing α β).Tracked where
  words _ := Nat.two_pow_pos 32
  columns _ _ := rfl
  counter := Nat.le_refl 0
  trades _ _ _ := rfl

theorem tracked_write {d : Drawing α β} (ht : d.Tracked) (w : Write α rows) :
    (d.step (.write w)).Tracked := by
  have hw := DepthHistory.writes_perform ht.words w
  refine ⟨hw.words, fun c hin => ?_, ?_, ?_⟩
  · have hcapacity : c < d.history.capacity := by
      rw [← hw.capacity]
      exact hin
    have hc := ht.columns c hcapacity
    show match d.upload with
      | none => (d.history.perform w).revision c =
          (d.since c + (d.history.columnsOf w).count c) % 2 ^ 32
      | some u => _
    cases hu : d.upload with
    | none =>
        rw [hu] at hc
        dsimp only at hc ⊢
        rw [hw.revision, hc, Nat.mod_add_mod]
    | some u =>
        rw [hu] at hc
        obtain ⟨hword, hrevision, hsame⟩ := hc
        refine ⟨hword, ?_, fun hzero => ?_⟩
        · show (d.history.perform w).revision c =
            (u.uploadedRevisions c + (d.since c + (d.history.columnsOf w).count c)) % 2 ^ 32
          rw [hw.revision, hrevision, Nat.mod_add_mod, Nat.add_assoc]
        · obtain ⟨hsince, hcount⟩ := Nat.add_eq_zero_iff.mp hzero
          have hcolumn : (d.step (.write w)).history.column c = d.history.column c :=
            hw.column c (List.count_eq_zero.mp hcount)
          rw [hcolumn]
          exact hsame hsince
  · have hcounter := ht.counter
    cases hu : d.upload with
    | none =>
        rw [copies, step, hu]
        exact Nat.zero_le _
    | some u =>
        rw [copies, hu] at hcounter
        rw [copies, step, hu]
        exact hcounter
  · have htrades := ht.trades
    cases hu : d.upload with
    | none =>
        rw [copies, hu] at htrades
        rw [copies, step, hu]
        exact htrades
    | some u =>
        rw [copies, hu] at htrades
        rw [copies, step, hu]
        exact htrades

theorem tracked_append {d : Drawing α β} (ht : d.Tracked) (packed : β) :
    (d.step (.append packed : DrawAct α β rows)).Tracked := by
  refine ⟨ht.words, ht.columns, Nat.le_succ_of_le ht.counter, fun slot hslot hunwritten => ?_⟩
  have hother : d.tape.writeCount % d.tape.capacity ≠ slot :=
    hunwritten _ ht.counter (Nat.lt_succ_self _)
  show d.copies.trades slot =
    Function.update d.tape.instances (d.tape.writeCount % d.tape.capacity) packed slot
  rw [Function.update_of_ne hother.symm]
  exact ht.trades slot hslot fun n hfrom hto => hunwritten n hfrom (Nat.lt_succ_of_lt hto)

/-! ## A render -/

/-- Before a render a column is dirty, or its copy is right. -/
theorem Tracked.dirty_or_same {d : Drawing α β} (ht : d.Tracked) (hfew : d.Few) {c : Nat}
    (hc : c < d.history.capacity) :
    d.history.revision c ≠ d.copies.uploadedRevisions c ∨
      d.copies.depth c = (d.history.column c).depth ∧
        d.copies.metas c = (d.history.column c).metas := by
  have hcolumn := ht.columns c hc
  have hsince := hfew c hc
  rw [copies]
  cases hu : d.upload with
  | none =>
      rw [hu] at hcolumn
      refine .inl ?_
      show d.history.revision c ≠ 0xffffffff
      have hcount : d.history.revision c = d.since c % 2 ^ 32 := hcolumn
      omega
  | some u =>
      rw [hu] at hcolumn
      obtain ⟨hword, hrevision, hsame⟩ := hcolumn
      rcases Nat.eq_zero_or_pos (d.since c) with hzero | hpos
      · exact .inr (hsame hzero)
      · refine .inl ?_
        show d.history.revision c ≠ u.uploadedRevisions c
        omega

/-- Uploading the dirty columns makes every copy right, and every revision the
one uploaded. -/
theorem Tracked.uploadColumns {d : Drawing α β} (ht : d.Tracked) (hfew : d.Few) {c : Nat}
    (hc : c < d.history.capacity) :
    (d.copies.uploadColumns d.history).depth c = (d.history.column c).depth ∧
      (d.copies.uploadColumns d.history).metas c = (d.history.column c).metas ∧
      (d.copies.uploadColumns d.history).uploadedRevisions c = d.history.revision c := by
  obtain ⟨-, hcovered⟩ := dirtyColumnRanges_spec d.history.capacity d.history.revision
    d.copies.uploadedRevisions maxUploadRanges
  rw [SourceUpload.uploadColumns]
  split
  · next hempty =>
      have hclean : d.history.revision c = d.copies.uploadedRevisions c := by
        by_contra hne
        obtain ⟨r, hr, -⟩ := hcovered c hc hne
        have hnone : dirtyColumnRanges d.history.capacity d.history.revision
            d.copies.uploadedRevisions maxUploadRanges = [] := hempty
        rw [hnone] at hr
        cases hr
      obtain ⟨hdepth, hmetas⟩ := (ht.dirty_or_same hfew hc).resolve_left fun hne => hne hclean
      exact ⟨hdepth, hmetas, hclean.symm⟩
  · refine ⟨copyRanges_covered ?_, if_pos hc, rfl⟩
    rcases ht.dirty_or_same hfew hc with hne | hsame
    · exact .inl (hcovered c hc hne)
    · exact .inr hsame.1

theorem Tracked.uploadTrades {d : Drawing α β} (ht : d.Tracked) :
    ((d.copies.uploadColumns d.history).uploadTrades d.tape).uploadedTrades = d.tape.writeCount ∧
      ∀ slot < d.tape.capacity,
        ((d.copies.uploadColumns d.history).uploadTrades d.tape).trades slot =
          d.tape.instances slot := by
  obtain ⟨htrades, hcounter⟩ := d.copies.uploadColumns_trades d.history
  refine SourceUpload.uploadTrades_spec ?_ ?_
  · rw [hcounter]
    exact ht.counter
  · rw [hcounter, htrades]
    exact ht.trades

/-- After a render the copies are the arrays. -/
theorem equal_render {d : Drawing α β} (ht : d.Tracked) (hfew : d.Few) :
    d.Equal ((d.copies.uploadColumns d.history).uploadTrades d.tape) := by
  obtain ⟨hdepth, hmetas, -⟩ := (d.copies.uploadColumns d.history).uploadTrades_columns d.tape
  obtain ⟨-, hspec⟩ := ht.uploadTrades
  refine ⟨fun c hc => ?_, fun c hc => ?_, hspec⟩
  · rw [hdepth]
    exact (ht.uploadColumns hfew hc).1
  · rw [hmetas]
    exact (ht.uploadColumns hfew hc).2.1

theorem tracked_render {d : Drawing α β} (ht : d.Tracked) (hfew : d.Few) :
    (d.step (.render : DrawAct α β rows)).Tracked := by
  obtain ⟨hdepth, hmetas, hrevisions⟩ :=
    (d.copies.uploadColumns d.history).uploadTrades_columns d.tape
  obtain ⟨hcounter, htrades⟩ := ht.uploadTrades
  refine ⟨ht.words, fun c hc => ?_, Nat.le_of_eq hcounter, fun slot hslot _ => htrades slot hslot⟩
  obtain ⟨hd, hm, hr⟩ := ht.uploadColumns hfew hc
  refine ⟨?_, ?_, fun _ => ⟨?_, ?_⟩⟩
  · rw [hrevisions, hr]
    exact ht.words c
  · rw [hrevisions, hr]
    exact (Nat.mod_eq_of_lt (ht.words c)).symm
  · rw [hdepth]
    exact hd
  · rw [hmetas]
    exact hm

/-- A render finds no column written too often. -/
def Timely (d : Drawing α β) (act : DrawAct α β rows) : Prop := act = .render → d.Few

/-- A render copies ranges that lie in their rings, one after the other, and
leaves the copies equal to the arrays. -/
def Faithful (d : Drawing α β) (act : DrawAct α β rows) : Prop :=
  act = .render →
    Ascending d.history.capacity (d.copies.columnRanges d.history) ∧
      Ascending d.tape.capacity ((d.copies.uploadColumns d.history).tradeRanges d.tape) ∧
      ∃ u, (d.step act).upload = some u ∧ (d.step act).Equal u

theorem tracked_step {d : Drawing α β} (ht : d.Tracked) {act : DrawAct α β rows}
    (htimely : d.Timely act) : (d.step act).Tracked := by
  cases act with
  | write w => exact tracked_write ht w
  | append packed => exact tracked_append ht packed
  | render => exact tracked_render ht (htimely rfl)

theorem faithful_step {d : Drawing α β} (ht : d.Tracked) {act : DrawAct α β rows}
    (htimely : d.Timely act) : d.Faithful act := by
  rintro rfl
  have hequal := equal_render ht (htimely rfl)
  exact ⟨(dirtyColumnRanges_spec _ _ _ _).1, (ringWriteRanges_spec _ _ _).1, _, rfl,
    ⟨hequal.depth, hequal.metas, hequal.trades⟩⟩

/-- In every run of writes, appends and renders in which no render finds a
column written too often, every render leaves the copies equal to the arrays. -/
theorem uploads_faithful (capacity rows tradeCapacity : Nat) (acts : List (DrawAct α β rows))
    (htimely : Run.Along step Timely (new capacity rows tradeCapacity) acts) :
    Run.Along step Faithful (new capacity rows tradeCapacity) acts :=
  Run.along_of_step (fun _ _ ht htimely => tracked_step ht htimely)
    (fun _ _ ht htimely => faithful_step ht htimely) (tracked_new capacity rows tradeCapacity)
    htimely

/-- Two columns of one row and two trades: three bins and three trades pass
between the renders. -/
theorem uploads_faithful_lapped :
    let acts : List (DrawAct Int Int 1) := [.write (.advanceTo 0 2), .write (.setHeadRow 0 5),
      .append 7, .render, .write (.advanceTo 3 0), .append 8, .append 9, .append 10, .render]
    Run.Along step Faithful (new 2 1 2) acts := by
  intro acts
  have hsmall : ∀ d : Drawing Int Int, (∀ c < d.history.capacity, d.since c < 2 ^ 32 - 1) →
      d.Timely (.render : DrawAct Int Int 1) := fun _ hfew _ => hfew
  refine uploads_faithful 2 1 2 acts ⟨nofun, nofun, nofun, hsmall _ ?_, nofun, nofun, nofun, nofun,
    hsmall _ ?_, trivial⟩
  · decide
  · decide

end Drawing

end Tape.Web
