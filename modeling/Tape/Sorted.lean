import Mathlib

/-!
# Rows of one image after sorting

Images are written as rows that share a key, the rows of many images are mixed,
and a reader sorts them by the key and cuts them where it changes. If the
images have distinct keys and no image is without rows, the cut pieces are the
images again, in the order of their keys and each with its rows in some order
(`runs_of_images`).
-/

namespace Sorted

variable {α β κ : Type*} [LinearOrder κ] (key : α → κ)

/-- The stable sort by a key, ascending. -/
def sortOn (l : List α) : List α := l.insertionSort fun a b => key a ≤ key b

/-- The list cut into runs of equal keys: each a first row and the others. -/
def runs : List α → List (α × List α)
  | [] => []
  | a :: l =>
      match runs l with
      | [] => [(a, [])]
      | (b, bs) :: rest =>
          if key a = key b then (a, b :: bs) :: rest else (a, []) :: (b, bs) :: rest

variable {key}

theorem sortOn_perm (key : α → κ) (l : List α) : (sortOn key l).Perm l :=
  List.perm_insertionSort _ l

theorem sortOn_pairwise (key : α → κ) (l : List α) :
    (sortOn key l).Pairwise fun a b => key a ≤ key b := by
  have : Std.Total fun a b : α => key a ≤ key b := ⟨fun a b => le_total (key a) (key b)⟩
  have : IsTrans α fun a b : α => key a ≤ key b := ⟨fun _ _ _ h h' => le_trans h h'⟩
  exact List.pairwise_insertionSort _ l

theorem orderedInsert_append {r : α → α → Prop} [DecidableRel r] {a : α} (l : List α)
    {l' : List α} (h : ∀ b ∈ l', r a b) :
    (l ++ l').orderedInsert r a = l.orderedInsert r a ++ l' := by
  induction l with
  | nil =>
      cases l' with
      | nil => rfl
      | cons b l' =>
          rw [List.nil_append, List.orderedInsert_cons_of_le r l' (h b List.mem_cons_self)]
          rfl
  | cons c l ih =>
      rw [List.cons_append, List.orderedInsert, List.orderedInsert, ih]
      split
      · rfl
      · rfl

/-- What comes wholly before the rest is sorted on its own. -/
theorem sortOn_append {l l' : List α} (h : ∀ a ∈ l, ∀ b ∈ l', key a ≤ key b) :
    sortOn key (l ++ l') = sortOn key l ++ sortOn key l' := by
  induction l with
  | nil => rfl
  | cons a l ih =>
      have ih := ih fun b hb => h b (List.mem_cons_of_mem _ hb)
      rw [sortOn] at ih
      rw [sortOn, List.cons_append, List.insertionSort_cons, ih]
      refine orderedInsert_append _ fun b hb => ?_
      exact h a List.mem_cons_self b ((sortOn_perm key l').mem_iff.mp hb)

/-- In a list in order, a search stops at a value that is found if nothing
before it in that order is. -/
theorem findSome?_of_pairwise {r : α → α → Prop} {f : α → Option β} {l : List α}
    (h : l.Pairwise r) {a : α} {b : β} (ha : a ∈ l) (hf : f a = some b)
    (hbefore : ∀ c ∈ l, r c a → f c = none) : l.findSome? f = some b := by
  obtain ⟨l₁, l₂, rfl⟩ := List.append_of_mem ha
  rw [List.findSome?_eq_some_iff]
  refine ⟨l₁, a, l₂, rfl, hf, fun c hc => ?_⟩
  have hca := (List.pairwise_append.mp h).2.2 c hc a List.mem_cons_self
  exact hbefore c (List.mem_append_left _ hc) hca

/-- Strictly increasing lists with the same members are equal. -/
theorem eq_of_strict {l l' : List κ} (h : l.Pairwise (· < ·)) (h' : l'.Pairwise (· < ·))
    (hmem : ∀ k, k ∈ l ↔ k ∈ l') : l = l' := by
  have hperm : l.Perm l' :=
    (List.perm_ext_iff_of_nodup (h.imp fun hlt => ne_of_lt hlt)
      (h'.imp fun hlt => ne_of_lt hlt)).mpr hmem
  exact hperm.eq_of_pairwise (fun _ _ _ _ hab hba => absurd hab (lt_asymm hba)) h h'

/-- A sorted list whose keys are distinct is strictly sorted. -/
theorem strict_of_nodup {l : List α} (hs : l.Pairwise fun a b => key a ≤ key b)
    (hn : (l.map key).Nodup) : (l.map key).Pairwise (· < ·) := by
  rw [List.pairwise_map]
  exact (hs.and (List.pairwise_map.mp hn)).imp fun h => lt_of_le_of_ne h.1 h.2

/-- Sorting by distinct keys forgets the order the list had. -/
theorem sortOn_eq_of_perm {l l' : List α} (h : l.Perm l') (hn : (l.map key).Nodup) :
    sortOn key l = sortOn key l' := by
  have hperm : (sortOn key l).Perm (sortOn key l') :=
    (sortOn_perm key l).trans (h.trans (sortOn_perm key l').symm)
  have hstrict : ∀ m : List α, m.Perm l → (sortOn key m).Pairwise fun a b => key a < key b := by
    intro m hm
    refine List.pairwise_map.mp (strict_of_nodup (sortOn_pairwise key m) ?_)
    exact (((sortOn_perm key m).trans hm).map key).nodup_iff.mpr hn
  exact hperm.eq_of_pairwise (fun _ _ _ _ hab hba => absurd hab (lt_asymm hba))
    (hstrict l (List.Perm.refl l)) (hstrict l' h.symm)

/-- The sort is stable: values of one key keep their order. -/
theorem sortOn_filter (l : List α) (k : κ) :
    (sortOn key l).filter (fun a => key a = k) = l.filter fun a => key a = k := by
  have : Std.Total fun a b : α => key a ≤ key b := ⟨fun a b => le_total (key a) (key b)⟩
  have : IsTrans α fun a b : α => key a ≤ key b := ⟨fun _ _ _ h h' => le_trans h h'⟩
  have hle : (l.filter fun a => key a = k).Pairwise fun a b => key a ≤ key b := by
    refine List.pairwise_of_forall_mem_list fun a ha b hb => le_of_eq ?_
    rw [of_decide_eq_true (List.mem_filter.mp ha).2, of_decide_eq_true (List.mem_filter.mp hb).2]
  have hsub : (l.filter fun a => key a = k).Sublist (sortOn key l) :=
    List.sublist_insertionSort hle List.filter_sublist
  have hfilter := hsub.filter fun a => decide (key a = k)
  rw [List.filter_filter, List.filter_congr fun a _ => Bool.and_self _] at hfilter
  exact (hfilter.eq_of_length_le ((sortOn_perm key l).filter _).length_eq.le).symm

/-- A sorted list has the values of its least key first. -/
theorem eq_filter_append {k : κ} {l : List α} (hs : l.Pairwise fun a b => key a ≤ key b)
    (hk : ∀ a ∈ l, k ≤ key a) :
    l = l.filter (fun a => key a = k) ++ l.filter fun a => key a ≠ k := by
  induction l with
  | nil => rfl
  | cons a l ih =>
      obtain ⟨ha, hs⟩ := List.pairwise_cons.mp hs
      by_cases hak : key a = k
      · rw [List.filter_cons_of_pos (by simpa using hak),
          List.filter_cons_of_neg (by simpa using hak), List.cons_append,
          ← ih hs fun b hb => hk b (List.mem_cons_of_mem _ hb)]
      · -- every later key is above the first one, and so not the least
        have hlt : k < key a := lt_of_le_of_ne (hk a List.mem_cons_self) (Ne.symm hak)
        have hnone : (a :: l).filter (fun b => key b = k) = [] := by
          refine List.filter_eq_nil_iff.mpr fun b hb => ?_
          rw [decide_eq_true_eq]
          rcases List.mem_cons.mp hb with rfl | hb
          · exact hak
          · exact ne_of_gt (lt_of_lt_of_le hlt (ha b hb))
        have hall : (a :: l).filter (fun b => key b ≠ k) = a :: l := by
          refine List.filter_eq_self.mpr fun b hb => ?_
          have hnot := List.filter_eq_nil_iff.mp hnone b hb
          simpa using hnot
        rw [hnone, hall, List.nil_append]

theorem eq_flatMap_filter {ks : List κ} (hks : ks.Pairwise (· < ·)) {l : List α}
    (hs : l.Pairwise fun a b => key a ≤ key b) (hall : ∀ a ∈ l, key a ∈ ks) :
    l = ks.flatMap fun k => l.filter fun a => key a = k := by
  induction ks generalizing l with
  | nil =>
      cases l with
      | nil => rfl
      | cons a l => cases hall a List.mem_cons_self
  | cons k ks ih =>
      obtain ⟨hk, hks⟩ := List.pairwise_cons.mp hks
      have hleast : ∀ a ∈ l, k ≤ key a := by
        intro a ha
        rcases List.mem_cons.mp (hall a ha) with heq | hmem
        · exact heq.ge
        · exact (hk _ hmem).le
      have hrest : ∀ a ∈ l.filter (fun a => key a ≠ k), key a ∈ ks := by
        intro a ha
        obtain ⟨hmem, hne⟩ := List.mem_filter.mp ha
        rcases List.mem_cons.mp (hall a hmem) with heq | hin
        · exact absurd heq (of_decide_eq_true hne)
        · exact hin
      have hsame : ∀ k' ∈ ks, (l.filter fun a => key a ≠ k).filter (fun a => key a = k') =
          l.filter fun a => key a = k' := by
        intro k' hk'
        rw [List.filter_filter]
        refine List.filter_congr fun a _ => ?_
        have hne : k ≠ k' := ne_of_lt (hk k' hk')
        by_cases heq : key a = k'
        · simp [heq, Ne.symm hne]
        · simp [heq]
      rw [List.flatMap_cons]
      refine (eq_filter_append hs hleast).trans (congrArg _ ?_)
      rw [ih hks (hs.filter _) hrest]
      exact List.flatMap_congr hsame

/-- The stable sort, key by key. -/
theorem sortOn_eq_flatMap {ks : List κ} (hks : ks.Pairwise (· < ·)) {l : List α}
    (hall : ∀ a ∈ l, key a ∈ ks) :
    sortOn key l = ks.flatMap fun k => l.filter fun a => key a = k := by
  have hsorted := eq_flatMap_filter hks (sortOn_pairwise key l)
    fun a ha => hall a ((sortOn_perm key l).mem_iff.mp ha)
  refine hsorted.trans (List.flatMap_congr fun k _ => ?_)
  exact sortOn_filter l k

/-! ## The runs of a sorted list -/

theorem runs_keys_mem (key : α → κ) (l : List α) (k : κ) :
    k ∈ (runs key l).map (fun r => key r.1) ↔ k ∈ l.map key := by
  induction l with
  | nil => exact Iff.rfl
  | cons a l ih =>
      rw [List.map_cons, List.mem_cons, ← ih, runs]
      split
      · next h => simp [h]
      · next b bs rest h =>
          rw [h]
          split
          · next hab => simp [hab]
          · simp

theorem runs_strict {l : List α} (hs : l.Pairwise fun a b => key a ≤ key b) :
    ((runs key l).map fun r => key r.1).Pairwise (· < ·) := by
  induction l with
  | nil => exact List.Pairwise.nil
  | cons a l ih =>
      obtain ⟨hle, hs⟩ := List.pairwise_cons.mp hs
      have ih := ih hs
      have hmem := runs_keys_mem key l
      rw [runs]
      split
      · exact List.pairwise_singleton _ _
      · next b bs rest h =>
          rw [h] at ih hmem
          split
          · next hab =>
              simp only [List.map_cons] at ih ⊢
              rw [hab]
              exact ih
          · next hab =>
              rw [List.map_cons, List.pairwise_cons]
              refine ⟨fun k hk => ?_, ih⟩
              have hle' : ∀ k ∈ l.map key, key a ≤ k := by
                intro k hk
                obtain ⟨c, hc, rfl⟩ := List.mem_map.mp hk
                exact hle c hc
              have hb : key a < key b :=
                lt_of_le_of_ne (hle' _ ((hmem _).mp (by simp))) hab
              -- The first run has the least key, and it is above the new one.
              rw [List.map_cons, List.pairwise_cons] at ih
              rcases List.mem_cons.mp hk with rfl | hk
              · exact hb
              · exact lt_trans hb (ih.1 k hk)

/-- A run holds every row of its key. -/
theorem runs_filter {l : List α} (hs : l.Pairwise fun a b => key a ≤ key b) :
    ∀ r ∈ runs key l, r.1 :: r.2 = l.filter fun a => key a = key r.1 := by
  induction l with
  | nil => exact fun r hr => by cases hr
  | cons a l ih =>
      have hstrict := runs_strict hs
      have hs' := (List.pairwise_cons.mp hs).2
      have ih := ih hs'
      have hmem := runs_keys_mem key l
      rw [runs] at hstrict ⊢
      cases h : runs key l with
      | nil =>
          intro r hr
          obtain rfl := List.mem_singleton.mp hr
          have hl : l = [] := by
            rw [h] at hmem
            refine List.eq_nil_iff_forall_not_mem.mpr fun c hc => ?_
            exact absurd ((hmem (key c)).mpr (List.mem_map_of_mem hc)) List.not_mem_nil
          simp [hl]
      | cons first rest =>
          obtain ⟨b, bs⟩ := first
          rw [h] at ih hstrict
          by_cases hab : key a = key b
          · simp only [if_pos hab, List.map_cons, List.pairwise_cons] at hstrict ⊢
            intro r hr
            rcases List.mem_cons.mp hr with rfl | hr
            · have hrun : b :: bs = l.filter fun c => key c = key b := ih _ List.mem_cons_self
              rw [List.filter_cons_of_pos (by simp), hrun, hab]
            · have hne : key a ≠ key r.1 := ne_of_lt (hstrict.1 _ (List.mem_map_of_mem hr))
              rw [List.filter_cons_of_neg (by simp [hne])]
              exact ih r (List.mem_cons_of_mem _ hr)
          · simp only [if_neg hab, List.map_cons, List.pairwise_cons] at hstrict ⊢
            intro r hr
            rcases List.mem_cons.mp hr with rfl | hr
            · rw [List.filter_cons_of_pos (by simp), List.filter_eq_nil_iff.mpr]
              intro c hc hk
              rw [decide_eq_true_eq] at hk
              have hkey := (hmem (key c)).mpr (List.mem_map_of_mem hc)
              rw [h, hk] at hkey
              exact lt_irrefl _ (hstrict.1 _ (by simpa using hkey))
            · have hne : key a ≠ key r.1 :=
                ne_of_lt (hstrict.1 _
                  (by simpa using List.mem_map_of_mem (f := fun r => key r.1) hr))
              rw [List.filter_cons_of_neg (by simp [hne])]
              exact ih r hr

/-! ## Images -/

variable {rowsOf : β → List α} {keyOf : β → κ}

/-- Of the rows of many images with distinct keys, those with the key of one
are its own. -/
theorem filter_flatMap {κ : Type*} [DecidableEq κ] {key : α → κ} {keyOf : β → κ}
    {imgs : List β} (hkey : ∀ b ∈ imgs, ∀ a ∈ rowsOf b, key a = keyOf b)
    (hnodup : (imgs.map keyOf).Nodup) {b : β} (hb : b ∈ imgs) :
    (imgs.flatMap rowsOf).filter (fun a => key a = keyOf b) = rowsOf b := by
  induction imgs with
  | nil => cases hb
  | cons c rest ih =>
      rw [List.map_cons, List.nodup_cons] at hnodup
      have hrest := fun b hb => hkey b (List.mem_cons_of_mem _ hb)
      rw [List.flatMap_cons, List.filter_append]
      rcases List.mem_cons.mp hb with rfl | hmem
      · rw [List.filter_eq_self.mpr, List.filter_eq_nil_iff.mpr, List.append_nil]
        · intro a ha hk
          obtain ⟨c, hc, hac⟩ := List.mem_flatMap.mp ha
          rw [decide_eq_true_eq, hrest c hc a hac] at hk
          exact hnodup.1 (hk ▸ List.mem_map_of_mem hc)
        · exact fun a ha => decide_eq_true (hkey b List.mem_cons_self a ha)
      · rw [List.filter_eq_nil_iff.mpr, List.nil_append, ih hrest hnodup.2 hmem]
        intro a ha hk
        rw [decide_eq_true_eq, hkey c List.mem_cons_self a ha] at hk
        exact hnodup.1 (hk ▸ List.mem_map_of_mem hmem)

/-- Whatever is on the left has its counterpart on the right. -/
theorem exists_of_mem {γ δ : Type*} {R : γ → δ → Prop} {l : List γ} {l' : List δ}
    (h : List.Forall₂ R l l') : ∀ a ∈ l, ∃ b ∈ l', R a b := by
  induction h with
  | nil => exact fun a ha => by cases ha
  | @cons a b l l' hab _ ih =>
      intro c hc
      rcases List.mem_cons.mp hc with rfl | hc
      · exact ⟨b, List.mem_cons_self, hab⟩
      · obtain ⟨d, hd, hcd⟩ := ih c hc
        exact ⟨d, List.mem_cons_of_mem _ hd, hcd⟩

/-- A relation of the keys, strengthened by what holds of the members. -/
theorem forall₂_of_map_eq {γ δ κ : Type*} {f : γ → κ} {h : δ → κ} {R : γ → δ → Prop} :
    ∀ {l : List γ} {l' : List δ}, l.map f = l'.map h →
      (∀ a ∈ l, ∀ b ∈ l', f a = h b → R a b) → List.Forall₂ R l l'
  | [], [], _, _ => .nil
  | [], _ :: _, he, _ => by cases he
  | _ :: _, [], he, _ => by cases he
  | a :: l, b :: l', he, hR => by
      obtain ⟨hab, he⟩ := List.cons.inj he
      refine .cons (hR a List.mem_cons_self b List.mem_cons_self hab) ?_
      exact forall₂_of_map_eq he fun a ha b hb =>
        hR a (List.mem_cons_of_mem _ ha) b (List.mem_cons_of_mem _ hb)

/-- The keys of the runs are those of the images. -/
theorem runs_keys_images (key : α → κ) {imgs : List β} {rows : List α}
    (hkey : ∀ b ∈ imgs, ∀ a ∈ rowsOf b, key a = keyOf b)
    (hne : ∀ b ∈ imgs, rowsOf b ≠ []) (hrows : rows.Perm (imgs.flatMap rowsOf)) (k : κ) :
    k ∈ (runs key (sortOn key rows)).map (fun r => key r.1) ↔ k ∈ imgs.map keyOf := by
  rw [runs_keys_mem, ((sortOn_perm key rows).map key).mem_iff, (hrows.map key).mem_iff,
    List.mem_map, List.mem_map]
  constructor
  · rintro ⟨a, ha, rfl⟩
    obtain ⟨b, hb, hab⟩ := List.mem_flatMap.mp ha
    exact ⟨b, hb, (hkey b hb a hab).symm⟩
  · rintro ⟨b, hb, rfl⟩
    obtain ⟨a, ha⟩ := List.exists_mem_of_ne_nil _ (hne b hb)
    exact ⟨a, List.mem_flatMap.mpr ⟨b, hb, ha⟩, hkey b hb a ha⟩

/-- Where there are as many runs as images, no two images share a key. -/
theorem nodup_of_runs_length (key : α → κ) {imgs : List β} {rows : List α}
    (hkey : ∀ b ∈ imgs, ∀ a ∈ rowsOf b, key a = keyOf b)
    (hne : ∀ b ∈ imgs, rowsOf b ≠ []) (hrows : rows.Perm (imgs.flatMap rowsOf))
    (hlength : (runs key (sortOn key rows)).length = imgs.length) :
    (imgs.map keyOf).Nodup := by
  have hmem := runs_keys_images key hkey hne hrows
  have hstrict := runs_strict (sortOn_pairwise key rows)
  have hnodup : ((runs key (sortOn key rows)).map fun r => key r.1).Nodup :=
    hstrict.imp fun hlt => ne_of_lt hlt
  have hsub := List.subperm_of_subset hnodup fun k hk => (hmem k).mp hk
  refine (hsub.perm_of_length_le ?_).nodup_iff.mp hnodup
  rw [List.length_map, List.length_map, hlength]

/-- The runs of the sorted rows are the images, each with its rows in some
order. -/
theorem runs_of_images (key : α → κ) {imgs : List β} {rows : List α}
    (hkey : ∀ b ∈ imgs, ∀ a ∈ rowsOf b, key a = keyOf b)
    (hne : ∀ b ∈ imgs, rowsOf b ≠ []) (hnodup : (imgs.map keyOf).Nodup)
    (hrows : rows.Perm (imgs.flatMap rowsOf)) :
    ∃ imgs', imgs'.Perm imgs ∧
      List.Forall₂ (fun r b => (r.1 :: r.2).Perm (rowsOf b)) (runs key (sortOn key rows))
        imgs' := by
  have hsorted := sortOn_pairwise key rows
  have hperm := sortOn_perm keyOf imgs
  have hmem : ∀ k, k ∈ (runs key (sortOn key rows)).map (fun r => key r.1) ↔
      k ∈ (sortOn keyOf imgs).map keyOf := by
    intro k
    rw [runs_keys_images key hkey hne hrows, (hperm.map keyOf).mem_iff]
  have hkeys := eq_of_strict (runs_strict hsorted) (strict_of_nodup
    (sortOn_pairwise keyOf imgs) ((hperm.map keyOf).nodup_iff.mpr hnodup)) hmem
  refine ⟨sortOn keyOf imgs, hperm, forall₂_of_map_eq hkeys fun r hr b hb hrb => ?_⟩
  rw [runs_filter hsorted r hr, hrb, ← filter_flatMap hkey hnodup (hperm.mem_iff.mp hb)]
  exact ((sortOn_perm key rows).trans hrows).filter _

end Sorted
