import Tape.Store.Replay

/-!
# The order of a replay is the order of the recording

The tables hold the events of a recording in any order, and a snapshot's levels
in any order. While both clocks of the receipts agree on who is first, which
they do over one boot without steps of the wall clock, the replay puts the
events back in the order in which they were handled, with a gap before the
frame that revealed it (`inOrder_spec`).
-/

namespace Tape

/-- The same change, but for the order of a snapshot's levels. -/
inductive ReplayChange.Alike : ReplayChange → ReplayChange → Prop where
  | refl (c : ReplayChange) : Alike c c
  | snapshot {ticker : Ticker} {connId : Int} {sid : Sid} {bids bids' asks asks' : List Level}
      (hbids : bids.Perm bids') (hasks : asks.Perm asks') :
      Alike (.snapshot ticker connId sid bids asks) (.snapshot ticker connId sid bids' asks')

namespace Stamped

/-- Two events that the replay cannot tell apart. -/
structure Alike (a b : Stamped) : Prop where
  wall : a.recvWallNs = b.recvWallNs
  mono : a.recvMonoNs = b.recvMonoNs
  order : a.order = b.order
  change : a.change.Alike b.change

theorem Alike.refl (a : Stamped) : Alike a a := ⟨rfl, rfl, rfl, .refl _⟩

/-- Handled before: received earlier, or a gap and its frame. -/
def Before (a b : Stamped) : Prop :=
  a.recvMonoNs < b.recvMonoNs ∨ a.recvMonoNs = b.recvMonoNs ∧ a.order < b.order

/-- Not handled after. -/
def Upto (a b : Stamped) : Prop :=
  a.recvMonoNs < b.recvMonoNs ∨ a.recvMonoNs = b.recvMonoNs ∧ a.order ≤ b.order

theorem Before.upto {a b : Stamped} (h : Before a b) : Upto a b := by
  rcases h with h | ⟨h, h'⟩
  · exact .inl h
  · exact .inr ⟨h, h'.le⟩

theorem Upto.not_before {a b : Stamped} (h : Upto a b) : ¬ Before b a := by
  rw [Upto] at h
  rw [Before]
  omega

/-- Events that tie are the same event. -/
theorem eq_of_upto {l : List Stamped} (h : l.Pairwise Before) :
    ∀ {a b : Stamped}, a ∈ l → b ∈ l → Upto a b → Upto b a → a = b := by
  induction h with
  | nil => exact fun ha => by cases ha
  | @cons c l hc _ ih =>
      intro a b ha hb hab hba
      rcases List.mem_cons.mp ha with hac | hal
      · rcases List.mem_cons.mp hb with hbc | hbl
        · rw [hac, hbc]
        · exact absurd (hac ▸ hc b hbl) hba.not_before
      · rcases List.mem_cons.mp hb with hbc | hbl
        · exact absurd (hbc ▸ hc a hal) hab.not_before
        · exact ih hal hbl hab hba

theorem pairwise_of_alike {l l' : List Stamped} (h : List.Forall₂ Alike l l')
    (hl : l.Pairwise Upto) : l'.Pairwise Upto := by
  induction h with
  | nil => exact List.Pairwise.nil
  | @cons a b l l' hab htail ih =>
      obtain ⟨ha, hl⟩ := List.pairwise_cons.mp hl
      refine List.pairwise_cons.mpr ⟨fun b' hb' => ?_, ih hl⟩
      obtain ⟨a', ha', hab'⟩ := Sorted.exists_of_mem htail.flip b' hb'
      have hupto := ha a' ha'
      rw [Upto, hab.mono, hab.order, hab'.mono, hab'.order] at hupto
      exact hupto

/-- The wall clock and the monotonic clock agree on who is first. -/
def ClocksAgree (l : List Stamped) : Prop :=
  ∀ a ∈ l, ∀ b ∈ l, a.recvWallNs ≤ b.recvWallNs → a.recvMonoNs ≤ b.recvMonoNs

end Stamped

open Stamped (ClocksAgree)

/-- Where monotonic time never falls, there is no restart. -/
theorem keyed_of_monotone {restarts : Int} {l : List (Stamped × Nat)} :
    ∀ {highest : Option Int}, l.Pairwise (fun a b => a.1.recvMonoNs ≤ b.1.recvMonoNs) →
      (∀ high, highest = some high → ∀ e ∈ l, high ≤ e.1.recvMonoNs) →
      keyed restarts highest l = l.map fun e => (replayKey restarts e.1 e.2, e.1) := by
  induction l with
  | nil => exact fun _ _ => rfl
  | cons first later ih =>
      intro highest hmono hhigh
      obtain ⟨hfirst, hlater⟩ := List.pairwise_cons.mp hmono
      obtain ⟨e, index⟩ := first
      cases highest with
      | none =>
          rw [keyed, ih hlater (fun high h => ?_)]
          · rfl
          · obtain rfl := Option.some.inj h
            exact hfirst
      | some high =>
          have hle : high ≤ e.recvMonoNs := hhigh high rfl _ List.mem_cons_self
          have hkeep : ¬ e.recvMonoNs < high - monoRestartNs := by
            rw [monoRestartNs]
            omega
          rw [keyed, if_neg hkeep, ih hlater (fun high' h => ?_)]
          · rfl
          · obtain rfl := Option.some.inj h
            rw [max_eq_right hle]
            exact hfirst

/-- Events between which there is no restart are sorted by the monotonic clock,
gaps first. -/
theorem sorted_stretch (restarts : Int) (l : List (Stamped × Nat)) :
    ((Sorted.sortOn Prod.fst (l.map fun e => (replayKey restarts e.1 e.2, e.1))).map
        Prod.snd).Perm (l.map Prod.fst) ∧
      ((Sorted.sortOn Prod.fst (l.map fun e => (replayKey restarts e.1 e.2, e.1))).map
        Prod.snd).Pairwise Stamped.Upto := by
  have hsorted := Sorted.sortOn_perm Prod.fst
    (l.map fun e => (replayKey restarts e.1 e.2, e.1))
  constructor
  · refine (hsorted.map Prod.snd).trans ?_
    rw [List.map_map]
    exact List.Perm.refl _
  · rw [List.pairwise_map]
    refine (Sorted.sortOn_pairwise Prod.fst _).imp_of_mem ?_
    intro a b ha hb hab
    obtain ⟨x, -, rfl⟩ := List.mem_map.mp (hsorted.mem_iff.mp ha)
    obtain ⟨y, -, rfl⟩ := List.mem_map.mp (hsorted.mem_iff.mp hb)
    simp only [replayKey, Prod.Lex.toLex_le_toLex, lt_irrefl, false_or, true_and] at hab
    rcases hab with hlt | ⟨heq, horder⟩
    · exact .inl hlt
    · refine .inr ⟨heq, ?_⟩
      rcases horder with hlt | ⟨heq, -⟩
      · exact hlt.le
      · exact heq.le

/-- With clocks that agree, the events come out in the order of the monotonic
clock, gaps first. -/
theorem inOrder_of_clocks {events : List Stamped} (h : ClocksAgree events) :
    (inOrder events).Perm events ∧ (inOrder events).Pairwise Stamped.Upto := by
  have hmap : events.zipIdx.map Prod.fst = events := List.zipIdx_map_fst 0 events
  have hwall := Sorted.sortOn_perm wallKey events.zipIdx
  have hmem : ∀ e ∈ Sorted.sortOn wallKey events.zipIdx, e.1 ∈ events := by
    intro e he
    rw [← hmap]
    exact List.mem_map_of_mem (hwall.mem_iff.mp he)
  have hmono : (Sorted.sortOn wallKey events.zipIdx).Pairwise
      fun a b => a.1.recvMonoNs ≤ b.1.recvMonoNs := by
    refine (Sorted.sortOn_pairwise wallKey events.zipIdx).imp_of_mem ?_
    intro a b ha hb hab
    refine h _ (hmem a ha) _ (hmem b hb) ?_
    rcases Prod.Lex.le_iff.mp hab with hlt | ⟨heq, -⟩
    · exact hlt.le
    · exact heq.le
  obtain ⟨hperm, hupto⟩ := sorted_stretch 0 (Sorted.sortOn wallKey events.zipIdx)
  rw [inOrder, keyed_of_monotone hmono (fun _ h => by cases h)]
  exact ⟨hperm.trans ((hwall.map Prod.fst).trans (List.Perm.of_eq hmap)), hupto⟩

/-- The events of the handled ones, in any order and with the levels of their
snapshots in any order. -/
def Mixed (events timeline : List Stamped) : Prop :=
  ∃ recorded, List.Forall₂ Stamped.Alike events recorded ∧ recorded.Perm timeline

theorem Mixed.exists_of_mem {events timeline : List Stamped} (h : Mixed events timeline) :
    ∀ e ∈ events, ∃ e' ∈ timeline, e.Alike e' := by
  obtain ⟨recorded, halike, hperm⟩ := h
  intro e he
  obtain ⟨e', he', hee⟩ := Sorted.exists_of_mem halike e he
  exact ⟨e', hperm.mem_iff.mp he', hee⟩

theorem Mixed.perm {events events' timeline : List Stamped} (h : Mixed events timeline)
    (hperm : events'.Perm events) : Mixed events' timeline := by
  obtain ⟨recorded, halike, hrecorded⟩ := h
  obtain ⟨l, hl, hlperm⟩ := List.perm_comp_forall₂ hperm halike
  exact ⟨l, hl, hlperm.trans hrecorded⟩

/-- Mixed events that are sorted again are as they were handled. -/
theorem Mixed.alike {events timeline : List Stamped} (h : Mixed events timeline)
    (hupto : events.Pairwise Stamped.Upto) (hbefore : timeline.Pairwise Stamped.Before) :
    List.Forall₂ Stamped.Alike events timeline := by
  obtain ⟨l, hl, hlperm⟩ := h
  -- Only the order of the handled events is sorted and has no two that tie.
  have hanti : ∀ a b, a ∈ l → b ∈ timeline → Stamped.Upto a b → Stamped.Upto b a → a = b :=
    fun a b ha hb => Stamped.eq_of_upto hbefore (hlperm.mem_iff.mp ha) hb
  have heq : l = timeline := hlperm.eq_of_pairwise hanti
    (Stamped.pairwise_of_alike hl hupto) (hbefore.imp Stamped.Before.upto)
  exact heq ▸ hl

/-- The events of the tables, in any order, come out as they were handled. -/
theorem inOrder_spec {events timeline : List Stamped} (h : Mixed events timeline)
    (hbefore : timeline.Pairwise Stamped.Before) (hclocks : ClocksAgree timeline) :
    List.Forall₂ Stamped.Alike (inOrder events) timeline := by
  have hclocks' : ClocksAgree events := by
    intro a ha b hb hab
    obtain ⟨a', ha', haa⟩ := h.exists_of_mem a ha
    obtain ⟨b', hb', hbb⟩ := h.exists_of_mem b hb
    rw [haa.mono, hbb.mono]
    refine hclocks a' ha' b' hb' ?_
    rw [← haa.wall, ← hbb.wall]
    exact hab
  obtain ⟨hsame, hupto⟩ := inOrder_of_clocks hclocks'
  exact (h.perm hsame).alike hupto hbefore

end Tape
