import FleetSync.Proofs.Store.StoredResource

/-!
# Timestamps read back

The text of an instant is read as that instant (`Instant.ofText?_text`), down to the nanosecond,
also outside four-digit years and in a leap second. A field of the text is decimal digits that a
reader takes whole because of their number or of what follows (`Instant.digits?_append`); a year, a
number and a fraction are read by that, and the instant is put together from them. So an optional
instant that is stored reads back as it was (`Decoder.Rereads.nullableInstant`).
-/

namespace FleetSync

namespace Instant

/-! ## Digits -/

theorem natOfDigits_concat (ds : List Char) (c : Char) :
    natOfDigits (ds ++ [c]) = natOfDigits ds * 10 + (c.toNat - '0'.toNat) := by
  rw [natOfDigits, List.foldl_append]
  rfl

theorem natOfDigits_toDigits (n : Nat) : natOfDigits (Nat.toDigits 10 n) = n := by
  induction n using Nat.strongRecOn with
  | ind n ih =>
    rw [Nat.toDigits_eq_if (by decide)]
    split
    · rename_i hn
      exact (Nat.zero_add _).trans (Nat.toNat_digitChar_sub_48_of_lt_ten hn)
    · have hlast : (n % 10).digitChar.toNat - '0'.toNat = n % 10 :=
        Nat.toNat_digitChar_sub_48_of_lt_ten (Nat.mod_lt _ (by decide))
      rw [natOfDigits_concat, ih (n / 10) (by omega), hlast]
      omega

variable {width n : Nat} {ds rest : List Char}

@[simp] theorem natOfDigits_padded (width n : Nat) : natOfDigits (padded width n) = n := by
  have zeros : ∀ (k : Nat) (ds : List Char),
      natOfDigits (List.replicate k '0' ++ ds) = natOfDigits ds := by
    intro k ds
    induction k with
    | zero => rfl
    | succ k ih => exact ih
  rw [padded, zeros, natOfDigits_toDigits]

theorem isDigit_of_mem_padded {c : Char} (h : c ∈ padded width n) : c.isDigit = true := by
  rcases List.mem_append.1 h with h | h
  · rw [List.eq_of_mem_replicate h]
    rfl
  · exact Nat.isDigit_of_mem_toDigits (by decide) (by decide) h

theorem length_padded (hw : 0 < width) (h : n < Nat.pow 10 width) :
    (padded width n).length = width := by
  have := (Nat.length_toDigits_le_iff (b := 10) (by decide) hw).2 h
  rw [padded, List.length_append, List.length_replicate]
  omega

theorem padded_ne_nil (width n : Nat) : padded width n ≠ [] :=
  List.append_ne_nil_of_right_ne_nil _ Nat.toDigits_ne_nil

/-- Digits are read whole if there are no more of them than are taken, and nothing that is taken
with them goes on. -/
theorem digits?_append (rest : List Char) (digits : ∀ c ∈ ds, c.isDigit = true) (some : ds ≠ [])
    (fits : ds.length ≤ width)
    (stops : ds.length = width ∨ ∀ c ∈ rest.head?, c.isDigit = false) :
    digits? width (ds ++ rest) = .some (ds, rest) := by
  have hrest : (rest.take (width - ds.length)).takeWhile Char.isDigit = [] := by
    rcases stops with h | h
    · rw [h, Nat.sub_self]
      rfl
    · cases rest with
      | nil => simp
      | cons c rest =>
        cases width - ds.length with
        | zero => rfl
        | succ k => exact List.takeWhile_cons_of_neg (by simp [h c rfl])
  have htaken : ((ds ++ rest).take width).takeWhile Char.isDigit = ds := by
    rw [List.take_append, List.take_of_length_le fits, List.takeWhile_append_of_pos digits, hrest,
      List.append_nil]
  have hne : ds.isEmpty = false := by simpa using some
  simp only [digits?, htaken, hne, Bool.false_eq_true, if_false, List.drop_left]

/-! ## Parts of the text -/

theorem not_isWhiteSpace {c : Char} (h : c.isDigit = true) : isWhiteSpace c = false := by
  have hc : 48 ≤ c.toNat ∧ c.toNat ≤ 57 := by
    simp only [Char.isDigit, Bool.and_eq_true, decide_eq_true_eq, UInt32.le_iff_toNat_le] at h
    exact h
  simp only [isWhiteSpace, Bool.or_eq_false_iff, Bool.and_eq_false_iff, decide_eq_false_iff_not,
    beq_eq_false_iff_ne]
  omega

theorem skipBlanks_cons {c : Char} (h : isWhiteSpace c = false) :
    skipBlanks (c :: rest) = c :: rest :=
  List.dropWhile_cons_of_neg (by simp [h])

/-- Digits that are written begin with one. -/
theorem padded_eq_cons (width n : Nat) : ∃ c cs, padded width n = c :: cs ∧ c.isDigit = true := by
  obtain ⟨c, cs, h⟩ := List.exists_cons_of_ne_nil (padded_ne_nil width n)
  exact ⟨c, cs, h, isDigit_of_mem_padded (h ▸ List.mem_cons_self ..)⟩

theorem skipBlanks_padded (width n : Nat) (rest : List Char) :
    skipBlanks (padded width n ++ rest) = padded width n ++ rest := by
  obtain ⟨c, cs, h, hc⟩ := padded_eq_cons width n
  rw [h]
  exact skipBlanks_cons (not_isWhiteSpace hc)

theorem number?_padded (hw : 0 < width) (h : n < Nat.pow 10 width) (rest : List Char) :
    number? width (padded width n ++ rest) = some (n, rest) := by
  have hlen := length_padded hw h
  have hread := digits?_append rest (fun _ => isDigit_of_mem_padded)
    (padded_ne_nil width n) (Nat.le_of_eq hlen) (.inl hlen)
  rw [number?, skipBlanks_padded, hread]
  exact congrArg some (congrArg (·, rest) (natOfDigits_padded width n))

theorem mark?_self {c : Char} (h : isWhiteSpace c = false) : mark? c (c :: rest) = some rest := by
  rw [mark?, skipBlanks_cons h]
  exact if_pos rfl

/-- A year is read up to the mark after it. -/
theorem year?_yearText (year : Int) (rest : List Char) :
    year? (yearText year ++ '-' :: rest) = some (year, '-' :: rest) := by
  have stops : ∀ c ∈ ('-' :: rest).head?, c.isDigit = false := by
    rintro _ ⟨⟩
    rfl
  -- After a sign any number of digits is taken.
  have signed : digits? (padded 4 year.natAbs ++ '-' :: rest).length
      (padded 4 year.natAbs ++ '-' :: rest) = some (padded 4 year.natAbs, '-' :: rest) := by
    refine digits?_append _ (fun _ => isDigit_of_mem_padded) (padded_ne_nil _ _) ?_ (.inr stops)
    rw [List.length_append]
    exact Nat.le_add_right _ _
  rw [yearText]
  split
  · rename_i hyear
    have hlt : year.natAbs < 10000 := by omega
    have hlen : (padded 4 year.natAbs).length = 4 := length_padded (by decide) hlt
    have unsigned : digits? 4 (padded 4 year.natAbs ++ '-' :: rest) =
        some (padded 4 year.natAbs, '-' :: rest) :=
      digits?_append _ (fun _ => isDigit_of_mem_padded) (padded_ne_nil _ _) (Nat.le_of_eq hlen)
        (.inl hlen)
    have hnat : ((year.natAbs : Nat) : Int) = year := by omega
    obtain ⟨c, cs, hcs, hc⟩ := padded_eq_cons 4 year.natAbs
    rw [year?, skipBlanks_padded]
    split
    · rename_i h
      rw [hcs] at h
      obtain rfl := (List.cons.inj h).1
      cases hc
    · rename_i h
      rw [hcs] at h
      obtain rfl := (List.cons.inj h).1
      cases hc
    · rw [unsigned]
      simp only [Option.bind_eq_bind, Option.bind_some, natOfDigits_padded, hnat, Option.pure_def]
  · rename_i hyear
    by_cases hneg : year < 0
    · have hnat : -((year.natAbs : Nat) : Int) = year := by omega
      rw [if_pos hneg, List.cons_append, year?, skipBlanks_cons rfl]
      simp only [signed, Option.bind_eq_bind, Option.bind_some, natOfDigits_padded, hnat,
        Option.pure_def]
    · have hnat : ((year.natAbs : Nat) : Int) = year := by omega
      rw [if_neg hneg, List.cons_append, year?, skipBlanks_cons rfl]
      simp only [signed, Option.bind_eq_bind, Option.bind_some, natOfDigits_padded, hnat,
        Option.pure_def]

/-- A fraction is read up to what follows it. -/
theorem fraction?_fractionText (h : n < nanosPerSecond) :
    fraction? (fractionText n ++ ['Z']) = some (n, ['Z']) := by
  have read : ∀ width k : Nat, 0 < width → width ≤ 9 → k < 10 ^ width →
      k * 10 ^ (9 - width) = n →
      fraction? ('.' :: padded width k ++ ['Z']) = some (n, ['Z']) := by
    intro width k hw hle hk hn
    have hlen := length_padded hw hk
    have stops : ∀ c ∈ ['Z'].head?, c.isDigit = false := by
      rintro _ ⟨⟩
      rfl
    have hread := digits?_append ['Z'] (fun _ => isDigit_of_mem_padded)
      (padded_ne_nil width k) (hlen ▸ hle) (.inr stops)
    have hpow : k * Nat.pow 10 (9 - width) = n := hn
    rw [List.cons_append, fraction?, hread]
    simp only [Option.bind_eq_bind, Option.bind_some, natOfDigits_padded, hlen, hpow]
    rfl
  have hmax : nanosPerSecond = 1000000000 := rfl
  rw [fractionText]
  split
  · rename_i hzero
    rw [hzero]
    rfl
  split
  · exact read 3 _ (by decide) (by decide) (by omega) (by omega)
  split
  · exact read 6 _ (by decide) (by decide) (by omega) (by omega)
  · exact read 9 n (by decide) (by decide) (by omega) (Nat.mul_one n)

/-! ## Instants -/

/-- A time of day is that of its second. -/
theorem ofSeconds_seconds {t : TimeOfDay} (h : t.valid = true) :
    t.seconds < secondsPerDay ∧ TimeOfDay.ofSeconds t.seconds t.nanos = t := by
  obtain ⟨hour, minute, second, nanos⟩ := t
  obtain ⟨hhour, hminute, hsecond, -⟩ := of_decide_eq_true h
  dsimp only at hhour hminute hsecond
  simp only [TimeOfDay.ofSeconds, TimeOfDay.seconds, secondsPerDay, TimeOfDay.mk.injEq]
  exact ⟨by omega, by omega, by omega, by omega, trivial⟩

/-- A date and a time of day in UTC are those of the instant. -/
theorem ofLocal?_self (t : Instant) : ofLocal? t.date t.time 0 = some t := by
  obtain ⟨hlt, hself⟩ := ofSeconds_seconds t.time_valid
  have hmod : (((t.time.seconds : Int) - 0) % (secondsPerDay : Int)).toNat = t.time.seconds := by
    rw [Int.sub_zero, ← Int.natCast_emod, Int.toNat_natCast, Nat.mod_eq_of_lt hlt]
  have hof : of? t.date t.time = some t := by
    rw [of?, dif_pos t.date_valid, dif_pos t.time_valid]
  rw [ofLocal?, t.date_valid, t.time_valid]
  simp only [Bool.and_self, if_true, hmod, hself]
  rw [if_neg (by omega), if_neg (by omega), hof]

theorem daysInMonth_le (year : Int) (month : Nat) : daysInMonth year month ≤ 31 := by
  unfold daysInMonth
  split <;> (try split) <;> decide

/-- The text of an instant is read as that instant. -/
theorem ofText?_text (t : Instant) : ofText? t.text = some t := by
  have hself := ofLocal?_self t
  obtain ⟨⟨year, month, day⟩, ⟨hour, minute, second, nanos⟩, date_valid, time_valid⟩ := t
  have hdate := of_decide_eq_true date_valid
  have htime := of_decide_eq_true time_valid
  have hmonth := daysInMonth_le year month
  simp only [nanosPerSecond] at hdate htime hself
  have hfraction := fraction?_fractionText (n := nanos % nanosPerSecond)
    (Nat.mod_lt _ (by decide))
  have hoffset : offset? (skipBlanks ['Z']) = some (0, []) := rfl
  have two : ∀ {n : Nat} (rest : List Char), n < 100 →
      number? 2 (padded 2 n ++ rest) = some (n, rest) :=
    fun rest h => number?_padded (by decide) h rest
  -- A leap second is written as second 60.
  have hleap : second + nanos / nanosPerSecond ≤ 60 := by
    rw [nanosPerSecond]
    omega
  rw [ofText?, text, String.toList_ofList, ofChars?]
  simp only [List.append_assoc, List.cons_append]
  -- One field after the other is read, each with the mark before it.
  refine Option.bind_eq_some_iff.2 ⟨_, year?_yearText _ _, ?_⟩
  refine Option.bind_eq_some_iff.2 ⟨_, mark?_self rfl, ?_⟩
  refine Option.bind_eq_some_iff.2 ⟨_, two _ (by omega), ?_⟩
  refine Option.bind_eq_some_iff.2 ⟨_, mark?_self rfl, ?_⟩
  refine Option.bind_eq_some_iff.2 ⟨_, two _ (by omega), ?_⟩
  refine Option.bind_eq_some_iff.2 ⟨_, rfl, ?_⟩
  refine Option.bind_eq_some_iff.2 ⟨_, two _ (by omega), ?_⟩
  refine Option.bind_eq_some_iff.2 ⟨_, mark?_self rfl, ?_⟩
  refine Option.bind_eq_some_iff.2 ⟨_, two _ (by omega), ?_⟩
  refine Option.bind_eq_some_iff.2 ⟨_, mark?_self rfl, ?_⟩
  refine Option.bind_eq_some_iff.2 ⟨_, two _ (by omega), ?_⟩
  refine Option.bind_eq_some_iff.2 ⟨_, hfraction, ?_⟩
  refine Option.bind_eq_some_iff.2 ⟨_, hoffset, ?_⟩
  dsimp only
  have htime' : (if second + nanos / nanosPerSecond = 60 then
      (⟨hour, minute, 59, nanosPerSecond + nanos % nanosPerSecond⟩ : TimeOfDay)
      else ⟨hour, minute, second + nanos / nanosPerSecond, nanos % nanosPerSecond⟩) =
      ⟨hour, minute, second, nanos⟩ := by
    rw [nanosPerSecond]
    split <;> rw [TimeOfDay.mk.injEq] <;> exact ⟨rfl, rfl, by omega, by omega⟩
  rw [htime', hself]
  simp only [Nat.not_lt.2 hleap]
  rfl

end Instant

namespace Decoder.Rereads

variable {l : Nat}

/-- An optional instant reads back as it was. -/
theorem nullableInstant {o a : Option Instant}
    (h : Rereads (.nullable .instant) l (.ofOption .ofInstant o) a) : a = o := by
  rcases h.nullable fun t : Instant => ⟨t.text, rfl⟩ with ⟨rfl, rfl⟩ | ⟨t, x, rfl, rfl, v, hv, hd⟩
  · rfl
  · obtain rfl := Option.some.inj hv
    simp only [Json.toNode, Decoder.instant, t.ofText?_text] at hd
    rw [Except.ok.inj hd]

end Decoder.Rereads

/-- What is read of a status was asked for when it was stored to be. -/
theorem SyncStatus.scheduled_of_rereads {s read : SyncStatus} {l : Nat}
    (h : SyncStatus.decode.Rereads (l + 1) s.encode.canonical read) :
    read.syncScheduledAt = s.syncScheduledAt := by
  rw [canonical_encode] at h
  obtain ⟨rec, hmake, hfield⟩ := h.field fieldNames_stored (by decide)
  simp only [Checked.seq_eq_ok, Checked.map_eq_ok] at hmake
  obtain ⟨_, _, ⟨_, _, ⟨_, sched, hmake, hs, rfl⟩, -, rfl⟩, -, rfl⟩ := hmake
  obtain ⟨_, _, ⟨_, _, ⟨_, -, rfl⟩, -, rfl⟩, -, rfl⟩ := hmake
  have hcan : (s.field "sync_scheduled_at").canonical = .ofOption .ofInstant s.syncScheduledAt :=
    Json.canonical_ofInstant s.syncScheduledAt
  have hsched := hfield "sync_scheduled_at" (by decide) hs
  rw [hcan] at hsched
  exact hsched.nullableInstant

/-- What is read of a status got as far as it was stored to have got. -/
theorem SyncStatus.state_of_rereads {s read : SyncStatus} {l : Nat}
    (h : SyncStatus.decode.Rereads (l + 1) s.encode.canonical read) : read.state = s.state := by
  rw [canonical_encode] at h
  obtain ⟨rec, hmake, hfield⟩ := h.field fieldNames_stored (by decide)
  simp only [Checked.seq_eq_ok, Checked.map_eq_ok] at hmake
  obtain ⟨_, _, ⟨_, _, ⟨_, _, ⟨_, _, hmake, -, rfl⟩, -, rfl⟩, -, rfl⟩, -, rfl⟩ := hmake
  obtain ⟨_, state, ⟨_, -, rfl⟩, hstate, rfl⟩ := hmake
  have hst := (hfield "state" (by decide) hstate).choice
  cases hs : s.state <;> rw [hs] at hst <;> exact (Option.some.inj hst).symm

namespace Resource

variable {r read : Resource} {kind : Kind} {j : Json}

/-- The status of a resource that was read was read from that of the stored one. -/
theorem syncStatus_of_read (hj : r.stored.read = .ok j) (hd : ofDocument kind j = .ok read) :
    ∃ l, SyncStatus.decode.Rereads (l + 1) r.syncStatus.encode.canonical read.syncStatus := by
  obtain ⟨rec, hmake, hfield⟩ := (rereads_of_read hj hd).field fieldNames_stored (by decide)
  clear hj hd
  simp only [Checked.seq_eq_ok, Checked.map_eq_ok] at hmake
  obtain ⟨_, _, ⟨_, _, ⟨_, _, ⟨_, _, hmake, -, rfl⟩, -, rfl⟩, -, rfl⟩, -, rfl⟩ := hmake
  obtain ⟨_, _, ⟨_, _, ⟨_, _, ⟨_, _, hmake, -, rfl⟩, -, rfl⟩, hsync, rfl⟩, -, rfl⟩ := hmake
  obtain ⟨_, _, ⟨_, _, ⟨_, _, ⟨_, _, hmake, -, rfl⟩, -, rfl⟩, -, rfl⟩, -, rfl⟩ := hmake
  obtain ⟨_, _, ⟨_, _, ⟨_, _, ⟨_, _, hmake, -, rfl⟩, -, rfl⟩, -, rfl⟩, -, rfl⟩ := hmake
  obtain ⟨_, _, ⟨_, _, ⟨_, _, ⟨_, -, rfl⟩, -, rfl⟩, -, rfl⟩, -, rfl⟩ := hmake
  exact ⟨_, hfield "sync_status" (by decide) hsync⟩

/-- A resource that was read was asked for when the stored one was. -/
theorem scheduled_of_read (hj : r.stored.read = .ok j) (hd : ofDocument kind j = .ok read) :
    read.syncStatus.syncScheduledAt = r.syncStatus.syncScheduledAt := by
  obtain ⟨l, h⟩ := syncStatus_of_read hj hd
  exact SyncStatus.scheduled_of_rereads h

/-- A resource that was read got as far as the stored one. -/
theorem state_of_read (hj : r.stored.read = .ok j) (hd : ofDocument kind j = .ok read) :
    read.syncStatus.state = r.syncStatus.state := by
  obtain ⟨l, h⟩ := syncStatus_of_read hj hd
  exact SyncStatus.state_of_rereads h

end Resource

end FleetSync
