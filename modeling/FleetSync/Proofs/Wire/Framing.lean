import FleetSync.Wire.Frame
import Mathlib.Data.Nat.Digits.Defs
import Mathlib.Tactic.Ring

/-!
# Frames as bytes

The first four bytes of a frame are a length and the next two a type, both in base 256 with the most
significant byte first (`Frame.lengthField`, `Frame.typeField`, `bigEndian`). By them and by how
many bytes there are it is decided what reading a frame gives (`Frame.ofBytes_eq`), so

* a frame that was written is read back, whatever follows it (`Frame.ofBytes_toBytes_append`);
* bytes that read as a frame start with that frame as it is written (`Frame.toBytes_of_ofBytes`);
* an error says what the first thing is that is wrong (`Frame.ofBytes_eq_error_iff`).
-/

namespace FleetSync.Wire

/-- The number that bytes write in base 256, the most significant byte first. -/
def bigEndian (bytes : List UInt8) : Nat := Nat.ofDigits 256 (bytes.map UInt8.toNat).reverse

namespace Frame

/-- The length that the header of some bytes gives. -/
def lengthField (b : ByteArray) : Nat := bigEndian (b.extract 0 4).data.toList

/-- The number of the type that the header of some bytes gives. -/
def typeField (b : ByteArray) : Nat := bigEndian (b.extract 4 headerSize).data.toList

/-! ## Numbers -/

theorem number_eq_bigEndian (bytes : List UInt8) : number bytes = bigEndian bytes := by
  have digits : ∀ (bytes : List UInt8) (n : Nat),
      bytes.foldl (fun n b => n * 256 + b.toNat) n =
        n * 256 ^ bytes.length + bigEndian bytes := by
    intro bytes
    induction bytes with
    | nil => exact fun n => by simp [bigEndian]
    | cons b rest ih =>
      intro n
      have hb : bigEndian (b :: rest) = bigEndian rest + 256 ^ rest.length * b.toNat := by
        rw [bigEndian, List.map_cons, List.reverse_cons, Nat.ofDigits_append, List.length_reverse,
          List.length_map, Nat.ofDigits_singleton]
        rfl
      rw [List.foldl_cons, ih, hb, List.length_cons]
      ring
  have h := digits bytes 0
  rwa [Nat.zero_mul, Nat.zero_add] at h

theorem toNat_byte (n place : Nat) : (byte n place).toNat = n / Nat.pow 256 place % 256 := by
  rw [byte, UInt8.toNat_ofNat']
  exact Nat.mod_mod ..

/-- Four bytes hold a number of 32 bits. -/
theorem bigEndian_length {n : Nat} (h : n < 256 ^ 4) :
    bigEndian [byte n 3, byte n 2, byte n 1, byte n 0] = n := by
  rw [← number_eq_bigEndian]
  simp only [number, List.foldl_cons, List.foldl_nil, toNat_byte]
  have h3 : Nat.pow 256 3 = 16777216 := rfl
  have h2 : Nat.pow 256 2 = 65536 := rfl
  have h1 : Nat.pow 256 1 = 256 := rfl
  have h0 : Nat.pow 256 0 = 1 := rfl
  rw [h3, h2, h1, h0]
  omega

/-- Two bytes that hold the number of a type. -/
theorem bigEndian_code (t : MessageType) : bigEndian [byte t.code 1, byte t.code 0] = t.code := by
  cases t <;> decide

/-- A number has no more digits than it was written with. -/
theorem bigEndian_inj {as bs : List UInt8} (h : bigEndian as = bigEndian bs)
    (hlen : as.length = bs.length) : as = bs := by
  have small : ∀ (bytes : List UInt8), ∀ d ∈ (bytes.map UInt8.toNat).reverse, d < 256 := by
    intro bytes d hd
    obtain ⟨b, -, rfl⟩ := List.mem_map.1 (List.mem_reverse.1 hd)
    exact b.toNat_lt
  have digits := Nat.ofDigits_inj_of_len_eq (by decide) (by simpa using hlen) (small as)
    (small bs) h
  exact (List.map_inj_right fun _ _ => UInt8.toNat_inj.1).1 (List.reverse_inj.1 digits)

/-! ## Headers -/

theorem length_extract (b : ByteArray) (i j : Nat) :
    (b.extract i j).data.toList.length = min j b.size - i := by
  exact ByteArray.size_extract

/-- The header of enough bytes is a length and a type. -/
theorem exists_header {b : ByteArray} (h : headerSize ≤ b.size) :
    ∃ l₃ l₂ l₁ l₀ t₁ t₀, (b.extract 0 headerSize).data.toList = [l₃, l₂, l₁, l₀, t₁, t₀] ∧
      (b.extract 0 4).data.toList = [l₃, l₂, l₁, l₀] ∧
      (b.extract 4 headerSize).data.toList = [t₁, t₀] := by
  have hlen := length_extract b 0 headerSize
  rw [Nat.min_eq_left h] at hlen
  have split := ByteArray.extract_eq_extract_append_extract (a := b) 4 (i := 0) (k := headerSize)
    (by decide) (by decide)
  obtain ⟨l₃, l₂, l₁, l₀, t₁, t₀, hb⟩ :
      ∃ l₃ l₂ l₁ l₀ t₁ t₀, (b.extract 0 headerSize).data.toList = [l₃, l₂, l₁, l₀, t₁, t₀] := by
    match hb : (b.extract 0 headerSize).data.toList, hlen with
    | [l₃, l₂, l₁, l₀, t₁, t₀], _ => exact ⟨l₃, l₂, l₁, l₀, t₁, t₀, rfl⟩
  refine ⟨l₃, l₂, l₁, l₀, t₁, t₀, hb, ?_⟩
  rw [split, ByteArray.data_append, Array.toList_append] at hb
  have hl := length_extract b 0 4
  rw [Nat.min_eq_left (Nat.le_trans (by decide) h)] at hl
  exact List.append_inj hb hl

/-- Bytes that are too few for a header are an incomplete one. -/
theorem ofBytes_of_lt {b : ByteArray} (h : b.size < headerSize) :
    ofBytes b = .error .incompleteHeader := by
  have hlen := length_extract b 0 headerSize
  rw [Nat.min_eq_right (Nat.le_of_lt h), Nat.sub_zero] at hlen
  rw [ofBytes]
  split
  · rename_i hb
    rw [hb] at hlen
    exact absurd hlen (Nat.ne_of_gt h)
  · rfl

/-- What reading bytes with a header gives is decided by its two fields and how much follows. -/
theorem ofBytes_eq {b : ByteArray} (h : headerSize ≤ b.size) :
    ofBytes b = (MessageType.ofCode (typeField b)).bind fun type =>
      if maxPayload < lengthField b then .error (.tooLarge (lengthField b))
      else if b.size - headerSize < lengthField b then .error .incompletePayload
      else .ok ⟨type, b.extract headerSize (headerSize + lengthField b)⟩ := by
  obtain ⟨l₃, l₂, l₁, l₀, t₁, t₀, hb, hl, ht⟩ := exists_header h
  rw [ofBytes, hb, typeField, lengthField, hl, ht, ← number_eq_bigEndian, ← number_eq_bigEndian]
  rfl

/-- A number is that of a type, or of none. -/
theorem ofCode_cases (n : Nat) :
    (∃ t : MessageType, MessageType.ofCode n = .ok t ∧ t.code = n ∧ (n = 1 ∨ n = 2)) ∨
      MessageType.ofCode n = .error (.invalidType n) ∧ n ≠ 1 ∧ n ≠ 2 := by
  unfold MessageType.ofCode
  split
  · exact .inl ⟨.dispatch, rfl, rfl, .inl rfl⟩
  · exact .inl ⟨.report, rfl, rfl, .inr rfl⟩
  · rename_i h₁ h₂
    exact .inr ⟨rfl, h₁, h₂⟩

/-! ## Reading -/

/-- The first thing that is wrong with bytes that do not start with a frame. -/
inductive Faulty (b : ByteArray) : FrameError → Prop
  | header (short : b.size < headerSize) : Faulty b .incompleteHeader
  | type (whole : headerSize ≤ b.size) (unknown : typeField b ≠ 1 ∧ typeField b ≠ 2) :
    Faulty b (.invalidType (typeField b))
  | large (whole : headerSize ≤ b.size) (known : typeField b = 1 ∨ typeField b = 2)
    (large : maxPayload < lengthField b) : Faulty b (.tooLarge (lengthField b))
  | payload (whole : headerSize ≤ b.size) (known : typeField b = 1 ∨ typeField b = 2)
    (fits : lengthField b ≤ maxPayload) (short : b.size - headerSize < lengthField b) :
    Faulty b .incompletePayload

/-- Bytes that start with a frame: its header, then its payload. -/
structure Starts (b : ByteArray) (f : Frame) : Prop where
  whole : headerSize ≤ b.size
  type : typeField b = f.type.code
  length : lengthField b = f.payload.size
  fits : lengthField b ≤ maxPayload
  enough : lengthField b ≤ b.size - headerSize
  payload : f.payload = b.extract headerSize (headerSize + lengthField b)

/-- Bytes start with a frame, which is read, or something is wrong with them, which is said. -/
theorem ofBytes_cases (b : ByteArray) :
    (∃ f, ofBytes b = .ok f ∧ Starts b f) ∨ ∃ e, ofBytes b = .error e ∧ Faulty b e := by
  by_cases whole : b.size < headerSize
  · exact .inr ⟨_, ofBytes_of_lt whole, .header whole⟩
  have whole := Nat.not_lt.1 whole
  rw [ofBytes_eq whole]
  rcases ofCode_cases (typeField b) with ⟨t, ht, code, known⟩ | ⟨ht, unknown⟩
  · rw [ht]
    simp only [Except.bind]
    split_ifs with large short
    · exact .inr ⟨_, rfl, .large whole known large⟩
    · exact .inr ⟨_, rfl, .payload whole known (Nat.not_lt.1 large) short⟩
    · have enough := Nat.not_lt.1 short
      refine .inl ⟨_, rfl, whole, code.symm, ?_, Nat.not_lt.1 large, enough, rfl⟩
      rw [ByteArray.size_extract]
      omega
  · rw [ht]
    exact .inr ⟨_, rfl, .type whole unknown⟩

/-- Only one thing is the first that is wrong. -/
theorem Faulty.unique {b : ByteArray} {e e' : FrameError} (h : Faulty b e) (h' : Faulty b e') :
    e = e' := by
  cases h <;> cases h' <;> first | rfl | omega

theorem Faulty.not_starts {b : ByteArray} {e : FrameError} {f : Frame} (h : Faulty b e)
    (hf : Starts b f) : False := by
  have code : f.type.code = 1 ∨ f.type.code = 2 := by
    cases f.type
    exacts [.inl rfl, .inr rfl]
  have := hf.whole
  have := hf.fits
  have := hf.enough
  rw [← hf.type] at code
  cases h <;> omega

/-- An error says what the first thing is that is wrong. -/
theorem ofBytes_eq_error_iff {b : ByteArray} {e : FrameError} :
    ofBytes b = .error e ↔ Faulty b e := by
  rcases ofBytes_cases b with ⟨f, hf, starts⟩ | ⟨e', he', faulty⟩
  · rw [hf]
    exact ⟨fun h => (nomatch h), fun h => (h.not_starts starts).elim⟩
  · constructor
    · intro h
      obtain rfl := Except.error.inj (he'.symm.trans h)
      exact faulty
    · intro h
      rw [he', h.unique faulty]

/-! ## Writing -/

theorem toBytes_eq (f : Frame) : f.toBytes = ⟨f.header.toArray⟩ ++ f.payload := by
  rw [toBytes, ByteArray.ext_iff, ByteArray.data_append, ← Array.toList_inj, Array.toList_append]

theorem size_header (f : Frame) : (⟨f.header.toArray⟩ : ByteArray).size = headerSize := rfl

theorem size_toBytes (f : Frame) : f.toBytes.size = headerSize + f.payload.size := by
  rw [toBytes_eq, ByteArray.size_append, size_header]

/-- Bytes start with a frame exactly if they start with what is written of it. -/
theorem toBytes_of_starts {b : ByteArray} {f : Frame} (h : Starts b f) :
    f.toBytes = b.extract 0 (headerSize + f.payload.size) := by
  obtain ⟨l₃, l₂, l₁, l₀, t₁, t₀, hb, hl, ht⟩ := exists_header h.whole
  have hsmall : f.payload.size < 256 ^ 4 :=
    Nat.lt_of_le_of_lt (h.length ▸ h.fits) (by decide)
  have length := h.length
  have type := h.type
  rw [lengthField, hl, ← bigEndian_length hsmall] at length
  rw [typeField, ht, ← bigEndian_code] at type
  have length := bigEndian_inj length rfl
  have type := bigEndian_inj type rfl
  have header : (⟨f.header.toArray⟩ : ByteArray) = b.extract 0 headerSize := by
    rw [ByteArray.ext_iff, ← Array.toList_inj, hb]
    simp only [List.cons.injEq, and_true] at length type
    obtain ⟨rfl, rfl, rfl, rfl⟩ := length
    obtain ⟨rfl, rfl⟩ := type
    rfl
  rw [toBytes_eq, header, ByteArray.extract_eq_extract_append_extract (a := b) headerSize
    (i := 0) (Nat.zero_le _) (Nat.le_add_right ..)]
  exact congrArg _ (h.payload.trans (by rw [h.length]))

/-- What is written of a frame starts with it, whatever follows. -/
theorem starts_toBytes {f : Frame} (rest : ByteArray) (h : f.payload.size ≤ maxPayload) :
    Starts (f.toBytes ++ rest) f := by
  have hsize : (f.toBytes ++ rest).size = headerSize + f.payload.size + rest.size := by
    rw [ByteArray.size_append, size_toBytes]
  have hsmall : f.payload.size < 256 ^ 4 := Nat.lt_of_le_of_lt h (by decide)
  have fields : ∀ i j, j ≤ headerSize → ((f.toBytes ++ rest).extract i j).data.toList =
      (f.header.take j).drop i := by
    intro i j hj
    have hlen : f.header.length = headerSize := rfl
    rw [toBytes_eq, ByteArray.append_assoc, ByteArray.extract_append, ByteArray.data_append,
      size_header, Nat.sub_eq_zero_of_le hj, ByteArray.data_extract, ByteArray.data_extract]
    simp [List.drop_take]
  have length : lengthField (f.toBytes ++ rest) = f.payload.size := by
    rw [lengthField, fields 0 4 (by decide)]
    exact bigEndian_length hsmall
  have type : typeField (f.toBytes ++ rest) = f.type.code := by
    rw [typeField, fields 4 headerSize (Nat.le_refl _)]
    exact bigEndian_code f.type
  refine ⟨by omega, type, length, by omega, by omega, ?_⟩
  rw [length, ByteArray.extract_append, size_toBytes, toBytes_eq, ByteArray.extract_append_eq_right
    (size_header f).symm (congrArg (· + f.payload.size) (size_header f).symm)]
  rw [Nat.sub_self, Nat.sub_eq_zero_of_le (Nat.le_add_right ..), ByteArray.extract_same,
    ByteArray.append_empty]

/-- A frame that was written is read back, whatever follows it. -/
theorem ofBytes_toBytes_append {f : Frame} (rest : ByteArray) (h : f.payload.size ≤ maxPayload) :
    ofBytes (f.toBytes ++ rest) = .ok f := by
  have starts := starts_toBytes rest h
  rcases ofBytes_cases (f.toBytes ++ rest) with ⟨f', hf', starts'⟩ | ⟨e, -, faulty⟩
  · rw [hf']
    have type : f'.type = f.type := by
      have code := starts'.type.symm.trans starts.type
      cases hf : f'.type <;> cases hf' : f.type <;> rw [hf, hf'] at code <;>
        first | rfl | exact absurd code (by decide)
    cases f
    cases f'
    exact congrArg _ (Frame.mk.injEq .. ▸ ⟨type, starts'.payload.trans starts.payload.symm⟩)
  · exact (faulty.not_starts starts).elim

/-- Bytes that read as a frame start with that frame as it is written. -/
theorem toBytes_of_ofBytes {b : ByteArray} {f : Frame} (h : ofBytes b = .ok f) :
    headerSize + f.payload.size ≤ b.size ∧
      b.extract 0 (headerSize + f.payload.size) = f.toBytes := by
  rcases ofBytes_cases b with ⟨f', hf', starts⟩ | ⟨e, he, -⟩
  · obtain rfl := Except.ok.inj (hf'.symm.trans h)
    have enough := starts.enough
    have whole := starts.whole
    rw [starts.length] at enough
    exact ⟨by omega, (toBytes_of_starts starts).symm⟩
  · rw [he] at h
    cases h

/-- What is written is what is read, and an error says what the first thing is that is wrong. -/
theorem codec_exact (f : Frame) (b rest : ByteArray) (e : FrameError) :
    (f.payload.size ≤ maxPayload → ofBytes (f.toBytes ++ rest) = .ok f) ∧
      (ofBytes b = .ok f → headerSize + f.payload.size ≤ b.size ∧
        b.extract 0 (headerSize + f.payload.size) = f.toBytes) ∧
      (ofBytes b = .error e ↔ Faulty b e) :=
  ⟨ofBytes_toBytes_append rest, toBytes_of_ofBytes, ofBytes_eq_error_iff⟩

/-- A report of two bytes is read back from what is written of it and one byte more, and five bytes
are too few for a header. -/
theorem codec_exact_report :
    let f : Frame := ⟨.report, ⟨#[123, 125]⟩⟩
    let b := f.toBytes ++ ⟨#[10]⟩
    b = ⟨#[0, 0, 0, 2, 0, 2, 123, 125, 10]⟩ ∧ ofBytes b = .ok f ∧ b.extract 0 8 = f.toBytes ∧
      ofBytes ⟨#[0, 0, 0, 2, 0]⟩ = .error .incompleteHeader := by
  intro f b
  obtain ⟨read, written, -⟩ := codec_exact f b ⟨#[10]⟩ .incompleteHeader
  obtain ⟨-, -, fails⟩ := codec_exact f ⟨#[0, 0, 0, 2, 0]⟩ .empty .incompleteHeader
  have read := read (by decide)
  exact ⟨by decide, read, (written read).2, fails.2 (.header (by decide))⟩

end Frame

end FleetSync.Wire
