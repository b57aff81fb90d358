import ContextqlServer.Lib.Instant
import Mathlib.Algebra.BigOperators.Group.List.Basic
import Mathlib.Algebra.GroupWithZero.Nat
import Mathlib.Data.String.Basic
import Mathlib.Order.Monotone.Basic

namespace ContextqlServer.Lib.Isoformat

section Texts

variable {α : Type} [LT α]

theorem append_lt_append_iff {p q : List α} (h : p.length = q.length) (r s : List α) :
    p ++ r < q ++ s ↔ p < q ∨ p = q ∧ r < s := by
  induction p generalizing q with
  | nil =>
    obtain rfl := List.length_eq_zero_iff.mp h.symm
    simp
  | cons a p ih =>
    cases q with
    | nil => cases h
    | cons b q =>
      have hlen : p.length = q.length := Nat.succ.inj h
      rw [List.cons_append, List.cons_append, List.cons_lt_cons_iff, List.cons_lt_cons_iff, ih hlen,
        List.cons.injEq, and_or_left, or_assoc, and_assoc]

theorem digitChar_lt_iff {m n : Nat} (hm : m < 10) (hn : n < 10) :
    m.digitChar < n.digitChar ↔ m < n := by
  have hdigits : ∀ m < 10, ∀ n < 10, (m.digitChar < n.digitChar ↔ m < n) := by decide
  exact hdigits m hm n hn

theorem padded_inj {width m n : Nat} (hm : m < 10 ^ width) (hn : n < 10 ^ width) :
    padded width m = padded width n ↔ m = n := by
  refine ⟨fun h => ?_, congrArg _⟩
  have hread := congrArg (fun cs => Nat.ofDigitChars 10 cs 0) h
  simp only [ofDigitChars_padded] at hread
  rwa [Nat.mod_eq_of_lt hm, Nat.mod_eq_of_lt hn] at hread

theorem padded_lt_iff {width m n : Nat} (hm : m < 10 ^ width) (hn : n < 10 ^ width) :
    padded width m < padded width n ↔ m < n := by
  induction width generalizing m n with
  | zero => simp_all
  | succ width ih =>
    rw [pow_succ] at hm hn
    have hm' : m / 10 < 10 ^ width := by omega
    have hn' : n / 10 < 10 ^ width := by omega
    have hdigit := digitChar_lt_iff (Nat.mod_lt m (by decide : 10 > 0)) (Nat.mod_lt n (by decide : 10 > 0))
    rw [padded, padded, append_lt_append_iff (by simp), ih hm' hn', padded_inj hm' hn',
      List.cons_lt_cons_iff, hdigit]
    simp only [List.not_lt_nil, and_false, or_false]
    omega

theorem padded_append_lt_iff {width m n : Nat} (hm : m < 10 ^ width) (hn : n < 10 ^ width)
    (r s : List Char) : padded width m ++ r < padded width n ++ s ↔ m < n ∨ m = n ∧ r < s := by
  rw [append_lt_append_iff (by simp), padded_lt_iff hm hn, padded_inj hm hn]

/-- What may stand after the time stands before a fraction. -/
theorem fraction_lt_iff {m n : Nat} (hm : m < 1000000) (hn : n < 1000000) (o : Option Int) :
    fraction m ++ offsetText o < fraction n ++ offsetText o ↔ m < n := by
  have hbefore (cs : List Char) : offsetText o < '.' :: cs := by
    cases o with
    | none => exact List.nil_lt_cons _ _
    | some o =>
      rw [offsetText, List.cons_lt_cons_iff]
      left
      split <;> decide
  rw [fraction, fraction]
  by_cases hm0 : m = 0 <;> by_cases hn0 : n = 0
  · simp [hm0, hn0]
  · rw [if_pos hm0, if_neg hn0]
    exact iff_of_true (hbefore _) (by omega)
  · rw [if_neg hm0, if_pos hn0]
    exact iff_of_false (lt_asymm (hbefore _)) (by omega)
  · rw [if_neg hm0, if_neg hn0, List.cons_append, List.cons_append, List.cons_lt_cons_iff,
      padded_append_lt_iff hm hn]
    simp

theorem isoformat_lt_fields {a b : Datetime} (h : a.fields.utcoffset = b.fields.utcoffset) :
    a.isoformat < b.isoformat ↔
      a.fields.year < b.fields.year ∨ a.fields.year = b.fields.year ∧
      (a.fields.month < b.fields.month ∨ a.fields.month = b.fields.month ∧
      (a.fields.day < b.fields.day ∨ a.fields.day = b.fields.day ∧
      (a.fields.hour < b.fields.hour ∨ a.fields.hour = b.fields.hour ∧
      (a.fields.minute < b.fields.minute ∨ a.fields.minute = b.fields.minute ∧
      (a.fields.second < b.fields.second ∨ a.fields.second = b.fields.second ∧
        a.fields.microsecond < b.fields.microsecond))))) := by
  have bounds (d : Datetime) : d.fields.year < 10 ^ 4 ∧ d.fields.month < 10 ^ 2 ∧
      d.fields.day < 10 ^ 2 ∧ d.fields.hour < 10 ^ 2 ∧ d.fields.minute < 10 ^ 2 ∧
      d.fields.second < 10 ^ 2 := by
    obtain ⟨hyear, hmonth, hday, hhour, hminute, hsecond, -, -⟩ := d.valid
    have hdays : daysInMonth d.fields.year d.fields.month ≤ 31 := by
      rw [daysInMonth]
      split_ifs <;> decide
    omega
  obtain ⟨ha₁, ha₂, ha₃, ha₄, ha₅, ha₆⟩ := bounds a
  obtain ⟨hb₁, hb₂, hb₃, hb₄, hb₅, hb₆⟩ := bounds b
  rw [String.lt_iff_toList_lt, Datetime.isoformat, Datetime.isoformat, h]
  simp only [String.toList_ofList, List.append_assoc, List.cons_append, List.cons_lt_cons_self,
    padded_append_lt_iff ha₁ hb₁, padded_append_lt_iff ha₂ hb₂, padded_append_lt_iff ha₃ hb₃,
    padded_append_lt_iff ha₄ hb₄, padded_append_lt_iff ha₅ hb₅, padded_append_lt_iff ha₆ hb₆,
    fraction_lt_iff a.valid.microsecond b.valid.microsecond]

end Texts

section Days

def daysInYear (year : Nat) : Nat := if isLeap year then 366 else 365

theorem daysBeforeYear_succ {year : Nat} (h : 1 ≤ year) :
    daysBeforeYear (year + 1) = daysBeforeYear year + daysInYear year := by
  obtain ⟨n, rfl⟩ := Nat.exists_eq_add_of_le' h
  have hleap : isLeap (n + 1) = true ↔ 4 ∣ n + 1 ∧ (¬ 100 ∣ n + 1 ∨ 400 ∣ n + 1) := by
    simp [isLeap, Nat.dvd_iff_mod_eq_zero]
  have hcenturies : n / 100 ≤ n / 4 := Nat.div_le_div_left (by decide) (by decide)
  rw [daysBeforeYear, daysBeforeYear, daysInYear]
  simp only [Nat.add_sub_cancel, Nat.succ_div, hleap]
  split_ifs <;> omega

theorem daysBeforeYear_le {y y' : Nat} (h : 1 ≤ y) (hlt : y < y') :
    daysBeforeYear y + daysInYear y ≤ daysBeforeYear y' := by
  induction y', hlt using Nat.le_induction with
  | base => rw [daysBeforeYear_succ h]
  | succ y' hy' ih =>
    rw [daysBeforeYear_succ (by omega)]
    exact ih.trans (Nat.le_add_right _ _)

theorem daysBeforeMonth_succ {year month : Nat} (h : 1 ≤ month) :
    daysBeforeMonth year (month + 1) = daysBeforeMonth year month + daysInMonth year month := by
  obtain ⟨m, rfl⟩ := Nat.exists_eq_add_of_le' h
  simp [daysBeforeMonth, List.range_succ]

theorem daysBeforeMonth_le {year m m' : Nat} (h : 1 ≤ m) (hlt : m < m') :
    daysBeforeMonth year m + daysInMonth year m ≤ daysBeforeMonth year m' := by
  induction m', hlt using Nat.le_induction with
  | base => rw [daysBeforeMonth_succ h]
  | succ m' hm' ih =>
    rw [daysBeforeMonth_succ (by omega)]
    exact ih.trans (Nat.le_add_right _ _)

theorem daysBeforeMonth_year (year : Nat) : daysBeforeMonth year 13 = daysInYear year := by
  have hrange : List.range (13 - 1) = [0, 1, 2, 3, 4, 5, 6, 7, 8, 9, 10, 11] := by decide
  rw [daysBeforeMonth, hrange, daysInYear]
  cases h : isLeap year <;> simp [daysInMonth, h]

theorem dayOfYear_le {f : Fields} (h : f.Valid) :
    daysBeforeMonth f.year f.month + f.day ≤ daysInYear f.year := by
  have hmonth := h.month
  have hle : daysBeforeMonth f.year f.month + daysInMonth f.year f.month ≤ daysBeforeMonth f.year 13 :=
    daysBeforeMonth_le hmonth.1 (by omega)
  rw [← daysBeforeMonth_year]
  have hday := h.day.2
  omega

theorem toordinal_lt {f g : Fields} (hf : f.Valid) (hg : g.Valid)
    (h : f.year < g.year ∨ f.year = g.year ∧ (f.month < g.month ∨ f.month = g.month ∧ f.day < g.day)) :
    f.toordinal < g.toordinal := by
  rw [Fields.toordinal, Fields.toordinal]
  have hfday := hf.day.2
  have hgday := hg.day.1
  rcases h with hyear | ⟨hyear, hmonth | ⟨hmonth, hday⟩⟩
  · have hle := daysBeforeYear_le hf.year.1 hyear
    have hwithin := dayOfYear_le hf
    omega
  · rw [hyear] at hfday ⊢
    have hle : daysBeforeMonth g.year f.month + daysInMonth g.year f.month ≤
        daysBeforeMonth g.year g.month := daysBeforeMonth_le hf.month.1 hmonth
    omega
  · rw [hyear, hmonth]
    omega

end Days

theorem timeOfDay_lt {f : Fields} (h : f.Valid) : f.timeOfDay < dayMicroseconds := by
  have hhour := h.hour
  have hminute := h.minute
  have hsecond := h.second
  have hmicro := h.microsecond
  rw [Fields.timeOfDay, dayMicroseconds]
  omega

variable {a b : Datetime}

theorem instant_lt_of_isoformat_lt (h : a.fields.utcoffset = b.fields.utcoffset)
    (hlt : a.isoformat < b.isoformat) : a.instant < b.instant := by
  rw [isoformat_lt_fields h] at hlt
  have hatime := timeOfDay_lt a.valid
  rw [Datetime.instant, Datetime.instant, h]
  by_cases hday : a.fields.year < b.fields.year ∨ a.fields.year = b.fields.year ∧
      (a.fields.month < b.fields.month ∨ a.fields.month = b.fields.month ∧ a.fields.day < b.fields.day)
  · have hord := toordinal_lt a.valid b.valid hday
    rw [dayMicroseconds] at hatime ⊢
    omega
  · -- of one day the time decides
    obtain ⟨hyear, hmonth, hdays, htime⟩ : a.fields.year = b.fields.year ∧
        a.fields.month = b.fields.month ∧ a.fields.day = b.fields.day ∧
        (a.fields.hour < b.fields.hour ∨ a.fields.hour = b.fields.hour ∧
        (a.fields.minute < b.fields.minute ∨ a.fields.minute = b.fields.minute ∧
        (a.fields.second < b.fields.second ∨ a.fields.second = b.fields.second ∧
          a.fields.microsecond < b.fields.microsecond))) := by
      omega
    have ha := a.valid
    have hb := b.valid
    have hlt : a.fields.timeOfDay < b.fields.timeOfDay := by
      have h₁ := ha.minute
      have h₂ := hb.minute
      have h₃ := ha.second
      have h₄ := hb.second
      have h₅ := ha.microsecond
      have h₆ := hb.microsecond
      rw [Fields.timeOfDay, Fields.timeOfDay]
      omega
    rw [Fields.toordinal, Fields.toordinal, hyear, hmonth, hdays]
    omega

theorem isoformat_injective : Function.Injective Datetime.isoformat := by
  intro a b h
  have hread := congrArg fromisoformat h
  rw [fromisoformat_isoformat, fromisoformat_isoformat] at hread
  exact Option.some.inj hread

/-- Datetimes of one offset are in the order of their texts. -/
theorem isoformat_lt_iff (h : a.fields.utcoffset = b.fields.utcoffset) :
    a.isoformat < b.isoformat ↔ a.instant < b.instant := by
  refine ⟨instant_lt_of_isoformat_lt h, fun hlt => ?_⟩
  rcases lt_trichotomy a.isoformat b.isoformat with hab | heq | hba
  · exact hab
  · obtain rfl := isoformat_injective heq
    exact absurd hlt (lt_irrefl _)
  · exact absurd hlt (lt_asymm (instant_lt_of_isoformat_lt h.symm hba))

theorem isoformat_le_iff (h : a.fields.utcoffset = b.fields.utcoffset) :
    a.isoformat ≤ b.isoformat ↔ a.instant ≤ b.instant := by
  rw [← not_lt, isoformat_lt_iff h.symm, not_lt]

/-- Of one offset, only equal datetimes denote one instant. -/
theorem instant_eq_iff (h : a.fields.utcoffset = b.fields.utcoffset) :
    a.instant = b.instant ↔ a = b := by
  rw [← isoformat_injective.eq_iff, le_antisymm_iff, le_antisymm_iff, isoformat_le_iff h,
    isoformat_le_iff h.symm]

section Bytes

/-- The bytes of a text. -/
def utf8 (s : String) : List UInt8 := s.toUTF8.data.toList

def IsAscii (cs : List Char) : Prop := ∀ c ∈ cs, c.toNat < 128

theorem utf8_eq_map {s : String} (h : IsAscii s.toList) :
    utf8 s = s.toList.map (fun c => c.val.toUInt8) := by
  have hencode : s.toList.flatMap String.utf8EncodeChar = s.toList.map (fun c => c.val.toUInt8) := by
    generalize s.toList = cs at h
    induction cs with
    | nil => rfl
    | cons c cs ih =>
      have hsize : c.utf8Size = 1 := by
        have hc : c.val ≤ 0x7f := by
          rw [UInt32.le_iff_toNat_le]
          exact Nat.le_of_lt_succ (h c (List.mem_cons_self ..))
        simp [Char.utf8Size, hc]
      rw [List.flatMap_cons, String.utf8EncodeChar_eq_singleton hsize,
        ih (fun c' hc' => h c' (List.mem_cons_of_mem _ hc'))]
      rfl
  rw [← hencode, utf8, String.toUTF8_eq_toByteArray, ← String.utf8Encode_toList, List.utf8Encode,
    List.data_toByteArray]

theorem toUInt8_lt_iff {c d : Char} (hc : c.toNat < 128) (hd : d.toNat < 128) :
    c.val.toUInt8 < d.val.toUInt8 ↔ c < d := by
  have hc' : c.val.toNat < 128 := hc
  have hd' : d.val.toNat < 128 := hd
  rw [UInt8.lt_iff_toNat_lt, Char.lt_def, UInt32.lt_iff_toNat_lt, UInt32.toNat_toUInt8,
    UInt32.toNat_toUInt8, Nat.mod_eq_of_lt (by omega), Nat.mod_eq_of_lt (by omega)]

theorem toUInt8_eq_iff {c d : Char} (hc : c.toNat < 128) (hd : d.toNat < 128) :
    c.val.toUInt8 = d.val.toUInt8 ↔ c = d := by
  have hc' : c.val.toNat < 128 := hc
  have hd' : d.val.toNat < 128 := hd
  rw [← UInt8.toNat_inj, UInt32.toNat_toUInt8, UInt32.toNat_toUInt8, Nat.mod_eq_of_lt (by omega),
    Nat.mod_eq_of_lt (by omega), UInt32.toNat_inj, Char.val_inj]

/-- Of ASCII texts the bytes are in the order of the characters. -/
theorem utf8_lt_iff {s t : String} (hs : IsAscii s.toList) (ht : IsAscii t.toList) :
    utf8 s < utf8 t ↔ s < t := by
  rw [utf8_eq_map hs, utf8_eq_map ht, String.lt_iff_toList_lt]
  generalize s.toList = cs at hs
  generalize t.toList = ds at ht
  induction cs generalizing ds with
  | nil => cases ds <;> simp
  | cons c cs ih =>
    cases ds with
    | nil => simp
    | cons d ds =>
      have hc := hs c (List.mem_cons_self ..)
      have hd := ht d (List.mem_cons_self ..)
      have hrest := ih (fun c' h => hs c' (List.mem_cons_of_mem _ h)) ds
        (fun d' h => ht d' (List.mem_cons_of_mem _ h))
      rw [List.map_cons, List.map_cons, List.cons_lt_cons_iff, List.cons_lt_cons_iff, hrest,
        toUInt8_lt_iff hc hd, toUInt8_eq_iff hc hd]

theorem isoformat_ascii (d : Datetime) : IsAscii d.isoformat.toList := by
  intro c hc
  rcases isoformat_chars hc with hdigit | hmark
  · rw [Char.isDigit] at hdigit
    simp only [Bool.and_eq_true, decide_eq_true_eq, UInt32.le_iff_toNat_le, ge_iff_le] at hdigit
    exact Nat.lt_of_le_of_lt hdigit.2 (by decide)
  · have hmarks : ∀ c ∈ ['-', 'T', ':', '.', '+'], c.toNat < 128 := by simp
    exact hmarks c hmark

end Bytes

end ContextqlServer.Lib.Isoformat
