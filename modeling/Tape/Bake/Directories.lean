import Tape.Bake.Disk
import Tape.Bake.Pruning

/-!
# The directories of different hours are apart

A day's text, and an hour's, has a fixed length, and a number can be read off
its digits, so the directories of two tables or two hours have no file in
common: what a bake replaces is its own hour's.
-/

namespace Tape.Bake

namespace Date

theorem toList_padded (width n : Nat) :
    (padded width n).toList =
      List.replicate (width - (Nat.toDigits 10 n).length) '0' ++ Nat.toDigits 10 n :=
  String.toList_ofList

theorem padded_injective {width a b : Nat} (h : padded width a = padded width b) : a = b := by
  have hread : ∀ n, Nat.ofDigitChars 10 (padded width n).toList 0 = n := by
    intro n
    rw [toList_padded, Nat.ofDigitChars_append, Nat.ofDigitChars_replicate_zero, Nat.mul_zero,
      Nat.ofDigitChars_ten_toDigits]
  rw [← hread a, h, hread]

theorem length_padded {width n : Nat} (hwidth : 0 < width) (h : n < 10 ^ width) :
    (padded width n).toList.length = width := by
  have hdigits := (Nat.length_toDigits_le_iff (by decide) hwidth).mpr h
  rw [toList_padded, List.length_append, List.length_replicate]
  omega

theorem month_lt (d : Date) : d.month < 10 ^ 2 := by
  have := d.monthIn
  omega

theorem day_lt (d : Date) : d.day < 10 ^ 2 := by
  have hmost : ∀ l : List Nat, (∀ n ∈ l, n ≤ 31) → ∀ i, l.getD i 0 ≤ 31 := by
    intro l hl i
    rw [List.getD_eq_getElem?_getD]
    cases hget : l[i]? with
    | none => exact Nat.zero_le _
    | some n => exact hl n (List.mem_of_getElem? hget)
  have hmonth : daysInMonth d.year d.month ≤ 31 := by
    rw [daysInMonth]
    split
    · decide
    · exact hmost _ (by decide) _
  have := d.dayIn
  omega

theorem length_isoformat (d : Date) : d.isoformat.toList.length = 10 := by
  have hyear : d.year < 10 ^ 4 := by
    have := d.yearIn
    omega
  simp [isoformat, String.toList_append, length_padded (by decide) hyear,
    length_padded (by decide) d.month_lt, length_padded (by decide) d.day_lt]

theorem isoformat_injective {d d' : Date} (h : d.isoformat = d'.isoformat) : d = d' := by
  have hyear : ∀ d : Date, (padded 4 d.year).toList.length = 4 := by
    intro d
    refine length_padded (by decide) ?_
    have := d.yearIn
    omega
  have hmonth := fun d : Date => length_padded (by decide) d.month_lt
  have htexts : d.isoformat.toList = d'.isoformat.toList := congrArg String.toList h
  simp only [isoformat, String.toList_append, List.append_assoc] at htexts
  obtain ⟨hy, hrest⟩ := List.append_inj htexts ((hyear d).trans (hyear d').symm)
  obtain ⟨hm, hrest⟩ := List.append_inj (List.append_cancel_left hrest)
    ((hmonth d).trans (hmonth d').symm)
  have hd := List.append_cancel_left hrest
  cases d
  cases d'
  obtain rfl := padded_injective (String.toList_inj.mp hy)
  obtain rfl := padded_injective (String.toList_inj.mp hm)
  obtain rfl := padded_injective (String.toList_inj.mp hd)
  rfl

end Date

/-! ## Hours -/

theorem hourText_natCast (h : Nat) : hourText (h : Int) = Date.padded 2 h :=
  if_neg (not_lt.mpr (Int.natCast_nonneg h))

theorem length_hourText (hour : HourKey) : (hourText hour.hour).toList.length = 2 := by
  have := hour.hourIn
  rw [hourText_natCast]
  exact Date.length_padded (by decide) (by omega)

theorem hourKey_eq {hour hour' : HourKey} (hdate : hour.date.isoformat = hour'.date.isoformat)
    (hhour : hourText hour.hour = hourText hour'.hour) : hour = hour' := by
  rw [hourText_natCast, hourText_natCast] at hhour
  cases hour
  cases hour'
  obtain rfl := Date.isoformat_injective hdate
  obtain rfl := Date.padded_injective hhour
  rfl

theorem isUnder_iff {directory path : String} :
    isUnder directory path = true ↔ directory.toList <+: path.toList :=
  List.isPrefixOf_iff_prefix

/-- A directory above a path is the only one of its length. -/
theorem eq_of_isUnder {directory directory' path : String} (h : isUnder directory path = true)
    (h' : isUnder directory' path = true)
    (hlength : directory.toList.length = directory'.toList.length) : directory = directory' := by
  rw [isUnder_iff] at h h'
  exact String.toList_inj.mp
    ((List.prefix_of_prefix_length_le h h' hlength.le).eq_of_length hlength)

theorem isUnder_append (directory name : String) :
    isUnder directory (directory ++ name) = true := by
  rw [isUnder_iff, String.toList_append]
  exact List.prefix_append _ _

/-- The raw directories of two hours are apart. -/
theorem hourDir_apart {hour hour' : HourKey} {path : String}
    (h : isUnder (hourDir hour) path = true) (h' : isUnder (hourDir hour') path = true) :
    hour = hour' := by
  have hlength : ∀ hour : HourKey, (hourDir hour).toList.length = 14 := by
    intro hour
    simp [hourDir, String.toList_append, hour.date.length_isoformat, length_hourText hour]
  have hsame := congrArg String.toList
    (eq_of_isUnder h h' ((hlength hour).trans (hlength hour').symm))
  simp only [hourDir, String.toList_append, List.append_assoc] at hsame
  obtain ⟨hdate, hrest⟩ := List.append_inj hsame
    (hour.date.length_isoformat.trans hour'.date.length_isoformat.symm)
  obtain ⟨hhour, -⟩ := List.append_inj (List.append_cancel_left hrest)
    ((length_hourText hour).trans (length_hourText hour').symm)
  exact hourKey_eq (String.toList_inj.mp hdate) (String.toList_inj.mp hhour)

/-- The partition directories of two tables or two hours are apart. -/
theorem partitionDir_apart {name name' : TableName} {hour hour' : HourKey} {path : String}
    (h : isUnder (partitionDir name hour) path = true)
    (h' : isUnder (partitionDir name' hour') path = true) : name = name' ∧ hour = hour' := by
  have hname : name = name' := by
    refine text_injective ?_
    rw [← takeWhile_of_partDirectory (isUnder_iff.mp h),
      takeWhile_of_partDirectory (isUnder_iff.mp h')]
  subst hname
  have hlength : (partitionDir name hour).toList.length =
      (partitionDir name hour').toList.length := by
    simp [partitionDir, partDirectory, String.toList_append, hour.date.length_isoformat,
      hour'.date.length_isoformat, length_hourText hour, length_hourText hour']
  have hsame := congrArg String.toList (eq_of_isUnder h h' hlength)
  simp only [partitionDir, partDirectory, String.toList_append, List.append_assoc] at hsame
  have hrest := List.append_cancel_left (List.append_cancel_left hsame)
  obtain ⟨hdate, hrest⟩ := List.append_inj hrest
    (hour.date.length_isoformat.trans hour'.date.length_isoformat.symm)
  obtain ⟨hhour, -⟩ := List.append_inj (List.append_cancel_left hrest)
    ((length_hourText hour).trans (length_hourText hour').symm)
  exact ⟨rfl, hourKey_eq (String.toList_inj.mp hdate) (String.toList_inj.mp hhour)⟩

end Tape.Bake
