import TandemVerifier.Library.Hex

/-! # Text as characters and as bytes

The white space around a text, what a check of the bytes of a text says of its characters,
and the lines of a text. Hexadecimal text is decoded exactly where it is an encoding up to
the case of its letters.
-/
namespace TandemVerifier.Library.Text

section Spaces

/-- The code points with the Unicode property `White_Space`. -/
def isWhitespace (c : Char) : Bool :=
  (9 ≤ c.toNat && c.toNat ≤ 13) || (0x2000 ≤ c.toNat && c.toNat ≤ 0x200a) ||
    [0x20,0x85,0xa0,0x1680,0x2028,0x2029,0x202f,0x205f,0x3000].contains c.toNat

/-- The text without the white space at its ends. -/
def trim (text : String) : String :=
  String.ofList ((text.toList.dropWhile isWhitespace).reverse.dropWhile isWhitespace).reverse

theorem dropWhile_eq_self_of_all {α : Type} {p : α → Bool} {xs rest : List α} (hne : xs ≠ [])
    (h : ∀ a ∈ xs, p a = false) : (xs ++ rest).dropWhile p = xs ++ rest := by
  cases xs with
  | nil => exact absurd rfl hne
  | cons a xs => exact List.dropWhile_cons_of_neg (by simp [h a List.mem_cons_self])

/-- White space around a text that has none is what is taken off. -/
theorem trim_surrounded {before after : List Char} {text : String} (hne : text.toList ≠ [])
    (htext : ∀ c ∈ text.toList, isWhitespace c = false) (hbefore : ∀ c ∈ before, isWhitespace c = true)
    (hafter : ∀ c ∈ after, isWhitespace c = true) :
    trim (String.ofList (before ++ text.toList ++ after)) = text := by
  have hreversed : ∀ c ∈ text.toList.reverse, isWhitespace c = false := fun c hc =>
    htext c (List.mem_reverse.mp hc)
  rw [trim,String.toList_ofList,List.append_assoc,List.dropWhile_append_of_pos hbefore,
    dropWhile_eq_self_of_all hne htext,List.reverse_append,
    List.dropWhile_append_of_pos (fun c hc => hafter c (List.mem_reverse.mp hc)),
    ← List.append_nil text.toList.reverse,
    dropWhile_eq_self_of_all (by simpa using hne) hreversed,List.append_nil,List.reverse_reverse,
    String.ofList_toList]

end Spaces

section Encoding

/-- The UTF-8 bytes of a text. -/
def bytes (text : String) : Bytes := text.toUTF8.data.toList

/-- The text with the ASCII letters in lower case. -/
def lower (text : String) : String := String.ofList (text.toList.map Char.toLower)

def lowerByte (byte : UInt8) : UInt8 := if 65 ≤ byte ∧ byte ≤ 90 then byte + 32 else byte

theorem bytes_eq (text : String) : bytes text = text.toList.flatMap String.utf8EncodeChar := by
  rw [bytes,String.toUTF8_eq_toByteArray,← String.ofList_toList (s := text),String.toByteArray_ofList,
    List.utf8Encode]
  simp

theorem bytes_injective : Function.Injective bytes := by
  intro a b h
  have harrays : a.toUTF8.data = b.toUTF8.data := Array.toList_inj.mp h
  rw [String.toUTF8_eq_toByteArray,String.toUTF8_eq_toByteArray] at harrays
  exact String.toByteArray_inj.mp (ByteArray.ext harrays)

/-- An ASCII character is one byte, any other one has only bytes beyond ASCII. -/
theorem utf8_cases (c : Char) : c.toNat < 128 ∧ String.utf8EncodeChar c = [UInt8.ofNat c.toNat] ∨
    128 ≤ c.toNat ∧ String.utf8EncodeChar c ≠ [] ∧ ∀ byte ∈ String.utf8EncodeChar c, 128 ≤ byte.toNat := by
  have hval : c.val.toNat = c.toNat := rfl
  unfold String.utf8EncodeChar
  simp only [hval]
  split
  · exact Or.inl ⟨by omega,rfl⟩
  · right
    refine ⟨by omega,?_⟩
    split
    · simp
      omega
    · split
      · simp
        omega
      · simp
        omega


/-- A test that only ASCII bytes pass holds of the bytes when it holds of the characters. -/
theorem forall_bytes {p : UInt8 → Prop} (hp : ∀ byte, p byte → byte.toNat < 128) {text : String} :
    (∀ byte ∈ bytes text, p byte) ↔ ∀ c ∈ text.toList, c.toNat < 128 ∧ p (UInt8.ofNat c.toNat) := by
  rw [bytes_eq]
  simp only [List.mem_flatMap,forall_exists_index,and_imp]
  constructor
  · intro h c hc
    rcases utf8_cases c with ⟨hascii,hone⟩ | ⟨_,hne,hwide⟩
    · exact ⟨hascii,h _ c hc (by simp [hone])⟩
    · obtain ⟨byte,hbyte⟩ := List.exists_mem_of_ne_nil _ hne
      have hlow := hp _ (h byte c hc hbyte)
      have hhigh := hwide byte hbyte
      omega
  · intro h byte c hc hbyte
    obtain ⟨hascii,hpass⟩ := h c hc
    rcases utf8_cases c with ⟨_,hone⟩ | ⟨hwide,_,_⟩
    · rw [hone,List.mem_singleton] at hbyte
      rwa [hbyte]
    · omega

theorem bytes_ascii {text : String} (h : ∀ c ∈ text.toList, c.toNat < 128) :
    bytes text = text.toList.map fun c => UInt8.ofNat c.toNat := by
  rw [bytes_eq,List.map_eq_flatMap]
  apply List.flatMap_congr
  intro c hc
  rcases utf8_cases c with ⟨_,hone⟩ | ⟨hwide,_⟩
  · exact hone
  · have hascii := h c hc
    omega

theorem utf8_toLower (c : Char) :
    String.utf8EncodeChar c.toLower = (String.utf8EncodeChar c).map lowerByte := by
  rcases utf8_cases c with ⟨hascii,hone⟩ | ⟨hwide,_,hbytes⟩
  · have hall : ∀ n < 128, String.utf8EncodeChar (Char.ofNat n).toLower = [lowerByte (UInt8.ofNat n)] := by
      decide +kernel
    rw [hone,← Char.ofNat_toNat c,hall _ (by simpa using hascii)]
    simp
  · have hsame : c.toLower = c := by
      refine dif_neg ?_
      rintro ⟨_,hle⟩
      have hle : c.toNat ≤ 90 := hle
      omega
    have hfixed : ∀ byte ∈ String.utf8EncodeChar c, lowerByte byte = byte := by
      intro byte hbyte
      have hhigh := hbytes byte hbyte
      rw [lowerByte,if_neg]
      rintro ⟨_,hle⟩
      have hle : byte.toNat ≤ 90 := hle
      omega
    rw [hsame,List.map_congr_left (g := id) hfixed,List.map_id]

theorem lower_bytes (text : String) : bytes (lower text) = (bytes text).map lowerByte := by
  simp only [bytes_eq,lower,String.toList_ofList,List.flatMap_map,List.map_flatMap,utf8_toLower]

variable {p : UInt8 → Bool} {q : Char → Bool}

/-- A test of bytes and one of characters that pass the same ASCII characters and no others. -/
structure AsciiTest (p : UInt8 → Bool) (q : Char → Bool) : Prop where
  same : ∀ n < 128, p (UInt8.ofNat n) = q (Char.ofNat n)
  bytes : ∀ n < 256, p (UInt8.ofNat n) = true → n < 128
  chars : ∀ c, q c = true → c.toNat < 128

theorem AsciiTest.all_bytes (h : AsciiTest p q) (text : String) :
    (Text.bytes text).all p = true ↔ text.toList.all q = true := by
  have hbyte : ∀ byte, p byte = true → byte.toNat < 128 := by
    intro byte hpass
    apply h.bytes byte.toNat byte.toNat_lt
    rwa [UInt8.ofNat_toNat]
  rw [List.all_eq_true,List.all_eq_true,forall_bytes hbyte]
  refine forall₂_congr fun c hc => ?_
  constructor
  · rintro ⟨hascii,hpass⟩
    rw [h.same _ hascii,Char.ofNat_toNat] at hpass
    exact hpass
  · intro hpass
    have hascii := h.chars c hpass
    refine ⟨hascii,?_⟩
    rw [h.same _ hascii,Char.ofNat_toNat]
    exact hpass

theorem AsciiTest.length_bytes (h : AsciiTest p q) {text : String} (htext : text.toList.all q = true) :
    (Text.bytes text).length = text.toList.length := by
  rw [bytes_ascii fun c hc => h.chars c (List.all_eq_true.mp htext c hc),List.length_map]

end Encoding

section Lines
variable {α : Type} {mark : α} {xs : List α} {lines : List (List α)}

/-- A list with a mark after each of its lines. -/
def terminate (mark : α) (lines : List (List α)) : List α := lines.flatMap fun line => line ++ [mark]

theorem intercalate_terminated : [mark].intercalate (lines ++ [[]]) = terminate mark lines := by
  induction lines with
  | nil => rfl
  | cons line rest ih =>
    rw [List.cons_append,List.intercalate_cons_of_ne_nil (by simp),ih]
    simp [terminate]

/-- Two marks at the end are an empty last line, after another one. -/
theorem terminate_suffix (hlines : ∀ line ∈ lines, mark ∉ line) :
    [mark,mark] <:+ terminate mark lines ↔ ∃ init, init ≠ [] ∧ lines = init ++ [[]] := by
  have hdouble : [mark,mark] = [mark] ++ [mark] := rfl
  constructor
  · intro h
    rcases List.eq_nil_or_concat lines with rfl | ⟨init,last,rfl⟩
    · simp [terminate] at h
    · have hlast : terminate mark (init ++ [last]) = (terminate mark init ++ last) ++ [mark] := by
        simp [terminate]
      rw [List.concat_eq_append] at h hlines
      rw [hlast,hdouble,List.suffix_append_self_iff] at h
      rcases List.eq_nil_or_concat last with rfl | ⟨front,byte,rfl⟩
      · refine ⟨init,?_,List.concat_eq_append⟩
        rintro rfl
        simp [terminate] at h
      · rw [List.concat_eq_append,← List.append_assoc,List.singleton_suffix_append_singleton_iff] at h
        exact absurd (by simp [h]) (hlines (front.concat byte) (by simp))
  · rintro ⟨init,hinit,rfl⟩
    obtain ⟨first,last,rfl⟩ := (List.eq_nil_or_concat init).resolve_left hinit
    exact ⟨terminate mark first ++ last,by simp [terminate]⟩

/-- The last line is not empty where two marks do not end the list, unless it is the only one. -/
theorem terminate_closed (hne : lines ≠ []) (hlines : ∀ line ∈ lines, mark ∉ line) :
    ¬[mark,mark] <:+ terminate mark lines ↔
      lines = [[]] ∨ ∃ last, lines.getLast? = some last ∧ last ≠ [] := by
  rw [terminate_suffix hlines]
  obtain ⟨init,last,rfl⟩ := (List.eq_nil_or_concat lines).resolve_left hne
  rw [List.concat_eq_append]
  constructor
  · intro h
    by_cases hempty : last = []
    · left
      by_cases hinit : init = []
      · rw [hinit,hempty]
        rfl
      · exact absurd ⟨init,hinit,by rw [hempty]⟩ h
    · exact Or.inr ⟨last,by simp,hempty⟩
  · rintro (hone | ⟨other,hother,hfull⟩) ⟨front,hfront,hsame⟩
    · rw [hone] at hsame
      exact hfront (List.append_inj' hsame.symm rfl).1
    · rw [hsame] at hother
      exact hfull (by simpa using hother.symm)

theorem getLast?_terminate (hne : lines ≠ []) : (terminate mark lines).getLast? = some mark := by
  obtain ⟨init,last,rfl⟩ := (List.eq_nil_or_concat lines).resolve_left hne
  simp [terminate]

theorem mem_terminate {x : α} (hx : x ≠ mark) : x ∈ terminate mark lines ↔ ∃ line ∈ lines, x ∈ line := by
  simp [terminate,hx]

variable [BEq α] [LawfulBEq α]

theorem notMem_of_mem_splitOn {line : List α} (h : line ∈ xs.splitOn mark) : mark ∉ line := by
  induction xs generalizing line with
  | nil =>
    obtain rfl : line = [] := by simpa using h
    simp
  | cons x rest ih =>
    rw [List.splitOn_cons_eq_if_modifyHead] at h
    split at h
    · rcases List.mem_cons.mp h with rfl | h
      · simp
      · exact ih h
    · next hx =>
      obtain ⟨first,others,hsplit⟩ := List.exists_cons_of_ne_nil (List.splitOn_ne_nil mark rest)
      rw [hsplit,List.modifyHead_cons] at h
      rcases List.mem_cons.mp h with rfl | h
      · have hfirst : mark ∉ first := ih (by simp [hsplit])
        rw [List.mem_cons,not_or]
        exact ⟨fun hmark => hx (by simp [hmark]),hfirst⟩
      · exact ih (by simp [hsplit,h])

/-- A list that ends in a mark is split into the lines that the marks end. -/
theorem splitOn_eq_lines :
    xs.splitOn mark = lines ++ [[]] ↔ xs = terminate mark lines ∧ ∀ line ∈ lines, mark ∉ line := by
  constructor
  · intro h
    constructor
    · rw [← intercalate_terminated,← h,List.intercalate_splitOn]
    · intro line hline
      have hmem : line ∈ xs.splitOn mark := by simp [h,hline]
      exact notMem_of_mem_splitOn hmem
  · rintro ⟨rfl,hlines⟩
    rw [← intercalate_terminated,List.splitOn_intercalate _ _ (by simp)]
    intro line hline
    rcases List.mem_append.mp hline with hline | hline
    · exact hlines line hline
    · obtain rfl := List.mem_singleton.mp hline
      simp

theorem exists_lines (h : xs.getLast? = some mark) : ∃ lines, xs.splitOn mark = lines ++ [[]] := by
  obtain ⟨front,rfl⟩ := List.getLast?_eq_some_iff.mp h
  refine ⟨front.splitOn mark,?_⟩
  rw [List.splitOn_append_cons_self]
  simp

end Lines

end TandemVerifier.Library.Text
namespace TandemVerifier.Library.Hex

theorem val_eq_ok {c : UInt8} {index value : ℕ} :
    val c index = .ok value ↔ value < 16 ∧ Text.lowerByte c = digitByte value := by
  have hall : ∀ n < 256, ∀ value < 16, val (UInt8.ofNat n) 0 = .ok value ↔
      Text.lowerByte (UInt8.ofNat n) = digitByte value := by
    decide +kernel
  have hindex : val c index = .ok value ↔ val c 0 = .ok value := by
    unfold val
    split
    · rfl
    · split
      · rfl
      · split
        · rfl
        · simp
  have hsmall : val c 0 = .ok value → value < 16 := by
    unfold val
    intro h
    split at h
    · next hrange =>
      have hle : c.toNat ≤ 70 := hrange.2
      have hvalue := Except.ok.inj h
      omega
    · split at h
      · next hrange =>
        have hle : c.toNat ≤ 102 := hrange.2
        have hvalue := Except.ok.inj h
        omega
      · split at h
        · next hrange =>
          have hle : c.toNat ≤ 57 := hrange.2
          have hvalue := Except.ok.inj h
          omega
        · simp at h
  have hc := fun hlt => hall c.toNat c.toNat_lt value hlt
  rw [UInt8.ofNat_toNat] at hc
  rw [hindex]
  exact ⟨fun h => ⟨hsmall h,(hc (hsmall h)).mp h⟩,fun h => (hc h.1).mpr h.2⟩

theorem except_bind_eq_ok {ε α β : Type} {x : Except ε α} {f : α → Except ε β} {b : β} :
    (x >>= f) = .ok b ↔ ∃ a, x = .ok a ∧ f a = .ok b := by
  cases x with
  | error e =>
    constructor
    · intro h
      cases h
    · rintro ⟨_,h,_⟩
      cases h
  | ok a =>
    constructor
    · intro h
      exact ⟨a,rfl,h⟩
    · rintro ⟨_,h,hf⟩
      cases h
      exact hf

theorem decodePairs_eq_ok {index : ℕ} {data bytes : Bytes} (heven : data.length % 2 = 0) :
    decodePairs index data = .ok bytes ↔ data.map Text.lowerByte = bytes.flatMap pairBytes := by
  fun_induction decodePairs index data generalizing bytes with
  | case1 index high low rest ih =>
    have heven : rest.length % 2 = 0 := by
      simp only [List.length_cons] at heven
      omega
    simp only [except_bind_eq_ok,val_eq_ok,ih heven,List.map_cons]
    constructor
    · rintro ⟨upper,⟨hupper,hhigh⟩,lower,⟨hlower,hlow⟩,tail,htail,hbytes⟩
      obtain rfl : _ = bytes := Except.ok.inj hbytes
      have hbyte : (UInt8.ofNat (16 * upper + lower)).toNat = 16 * upper + lower := by
        rw [UInt8.toNat_ofNat']
        omega
      rw [List.flatMap_cons,pairBytes,hbyte,hhigh,hlow,htail,
        show (16 * upper + lower) / 16 = upper by omega,show (16 * upper + lower) % 16 = lower by omega]
      rfl
    · intro h
      cases bytes with
      | nil => simp at h
      | cons byte tail =>
        have hlt := byte.toNat_lt
        simp only [List.flatMap_cons,pairBytes,List.cons_append,List.nil_append,List.cons.injEq] at h
        obtain ⟨hhigh,hlow,htail⟩ := h
        refine ⟨_,⟨by omega,hhigh⟩,_,⟨by omega,hlow⟩,tail,htail,?_⟩
        rw [show 16 * (byte.toNat / 16) + byte.toNat % 16 = byte.toNat by omega,UInt8.ofNat_toNat]
        rfl
  | case2 data _ hshort =>
    obtain rfl : data = [] := by
      rcases data with _ | ⟨a,_ | ⟨b,rest⟩⟩
      · rfl
      · simp at heven
      · exact (hshort a b rest rfl).elim
    cases bytes with
    | nil => exact ⟨fun _ => rfl,fun _ => rfl⟩
    | cons byte tail => simp [pairBytes,pure,Except.pure]

/-- A text in hexadecimal has two bytes for each byte. -/
theorem lower_encode_length {text : String} {bytes : Bytes} (h : Text.lower text = encode bytes) :
    (Text.bytes text).length = 2 * bytes.length := by
  rw [← pairBytes_length,← encode_utf8,← h]
  change _ = (Text.bytes (Text.lower text)).length
  rw [Text.lower_bytes,List.length_map]

/-- What encodes some bytes is in lower case. -/
theorem lower_encode (bytes : Bytes) : Text.lower (encode bytes) = encode bytes := by
  have hdigit : ∀ value < 16, (digit value).toLower = digit value := by decide
  have hbyte : ∀ byte : UInt8, (encodeByte byte).map Char.toLower = encodeByte byte := by
    intro byte
    have hlt := byte.toNat_lt
    simp only [encodeByte,List.map_cons,List.map_nil,hdigit (byte.toNat / 16) (by omega),
      hdigit (byte.toNat % 16) (by omega)]
  rw [Text.lower,encode,String.toList_ofList,List.map_flatMap]
  simp only [hbyte]

/-- A text decodes to the bytes that it encodes in letters of either case. -/
theorem decodeToSlice_eq_ok {n : ℕ} {text : String} {v : ByteVector n} :
    decodeToSlice n text = .ok v ↔ Text.lower text = encode v.toList := by
  have hlength := pairBytes_length v.toList
  rw [v.toList_length] at hlength
  have hlower : Text.lower text = encode v.toList ↔
      (Text.bytes text).map Text.lowerByte = v.toList.flatMap pairBytes := by
    rw [← Text.bytes_injective.eq_iff,Text.lower_bytes,← encode_utf8]
    rfl
  rw [hlower,decodeToSlice,← Text.bytes]
  split
  · next hodd =>
    simp only [reduceCtorEq,false_iff]
    intro h
    have hsize := congrArg List.length h
    rw [List.length_map,hlength] at hsize
    omega
  · next heven =>
    split
    · next hother =>
      simp only [reduceCtorEq,false_iff]
      intro h
      have hsize := congrArg List.length h
      rw [List.length_map,hlength] at hsize
      omega
    · rw [except_bind_eq_ok]
      constructor
      · rintro ⟨decoded,hdecoded,hslice⟩
        cases htry : ByteVector.tryFrom n decoded with
        | none => simp [htry] at hslice
        | some w =>
          simp only [htry,Option.elim_some,Except.ok.injEq] at hslice
          obtain rfl := hslice
          obtain rfl := ByteVector.tryFrom_eq_some.mp htry
          exact (decodePairs_eq_ok (by omega)).mp hdecoded
      · intro h
        refine ⟨v.toList,(decodePairs_eq_ok (by omega)).mpr h,?_⟩
        rw [ByteVector.tryFrom_eq_some.mpr rfl]
        rfl

end TandemVerifier.Library.Hex
