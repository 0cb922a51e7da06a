/-
# Quoted texts that are read back

Writing a text between quotes always succeeds, but reading knows fewer escapes than writing uses. A
bell, a vertical tab, any other control without a letter, a delete and a byte outside every encoding
are written in a form that reading refuses. All other runes are read back as they were.

Every rune is written as a chunk of its own. A chunk that can be read stands for its rune wherever it
is met, so a text of such chunks is decoded rune by rune.
-/

import VarPrint.Text.Quoted
import VarPrint.Proofs.Text.Encoding
import Mathlib.Algebra.Group.Nat.Defs

namespace VarPrint

/-- No control is printable. -/
theorem Rune.le_of_isPrintable {c : Char} (isPrintable : Rune.isPrintable c = true) :
    0x20 ≤ c.toNat ∧ c.toNat ≠ 0x7F := by
  have table : printable.all (fun range => 0x20 ≤ range.1 && (range.2 < 0x7F || 0x7F < range.1)) =
      true := by
    decide +kernel
  rw [Rune.isPrintable, inRanges, List.any_eq_true] at isPrintable
  obtain ⟨range, member, inside⟩ := isPrintable
  have outside := List.all_eq_true.mp table range member
  simp only [Bool.and_eq_true, Bool.or_eq_true, decide_eq_true_eq] at inside outside
  omega

namespace Bytes

/-- The runes of bytes of ASCII, byte by byte. -/
def asciiRunes (text : Bytes) : List Char :=
  text.map fun b => Char.ofNat b.toNat

theorem ofRunes_asciiRunes {text : Bytes} (ascii : ∀ b ∈ text, b < 0x80) :
    ofRunes (asciiRunes text) = text := by
  induction text with
  | nil => rfl
  | cons b text ih =>
      rw [List.forall_mem_cons] at ascii
      rw [asciiRunes, List.map_cons, ofRunes, List.flatMap_cons,
        Rune.utf8EncodeChar_ofNat ascii.1]
      exact congrArg (b :: ·) (ih ascii.2)

theorem ofRunes_append (first second : List Char) :
    ofRunes (first ++ second) = ofRunes first ++ ofRunes second :=
  List.flatMap_append

theorem hexDigit_lt {value : Nat} (small : value < 16) : hexDigit value < 0x80 := by
  revert value
  decide

theorem length_hexDigits (count value : Nat) : (hexDigits count value).length = count := by
  induction count generalizing value with
  | zero => rfl
  | succ count ih => rw [hexDigits, List.length_append, ih, List.length_singleton]

theorem exists_of_mem_hexDigits {count value : Nat} {b : UInt8}
    (member : b ∈ hexDigits count value) : ∃ digit < 16, b = hexDigit digit := by
  induction count generalizing value with
  | zero => cases member
  | succ count ih =>
      rw [hexDigits, List.mem_append, List.mem_singleton] at member
      obtain earlier | isLast := member
      · exact ih earlier
      · exact ⟨value % 16, Nat.mod_lt value (by decide), isLast⟩

theorem ascii_hexDigits (count value : Nat) : ∀ b ∈ hexDigits count value, b < 0x80 := by
  intro b member
  obtain ⟨digit, small, rfl⟩ := exists_of_mem_hexDigits member
  exact hexDigit_lt small

theorem ofRunes_append_hexDigits (front : List Char) (count value : Nat) :
    ofRunes (front ++ asciiRunes (hexDigits count value)) =
      ofRunes front ++ hexDigits count value := by
  rw [ofRunes_append, ofRunes_asciiRunes (ascii_hexDigits count value)]

end Bytes

namespace Quoted

open Bytes (asciiRunes hexDigit hexDigits ofRunes)

theorem hexValue?_hexDigit {value : Nat} (small : value < 16) :
    hexValue? (Char.ofNat (hexDigit value).toNat) = some value := by
  revert value
  decide

/-- The hexadecimal digits of a number that they have room for denote it. -/
theorem hexNumber?_hexDigits {count value : Nat} (small : value < 16 ^ count) :
    hexNumber? (asciiRunes (hexDigits count value)) = some value := by
  induction count generalizing value with
  | zero =>
      rw [Nat.pow_zero, Nat.lt_one_iff] at small
      rw [small]
      rfl
  | succ count ih =>
      have smaller : value / 16 < 16 ^ count := by
        rw [Nat.pow_succ] at small
        omega
      have front := ih smaller
      rw [hexNumber?, asciiRunes] at front
      rw [hexDigits, hexNumber?, asciiRunes, List.map_append, List.foldlM_append, front]
      show (hexValue? (Char.ofNat (hexDigit (value % 16)).toNat)).map (16 * (value / 16) + ·) >>=
        pure = some value
      rw [hexValue?_hexDigit (Nat.mod_lt value (by decide)), bind_pure, Option.map_some,
        Nat.div_add_mod]

/-- A rune whose code is read from digits is the rune with that code. -/
theorem runeOfCode?_toNat (c : Char) : runeOfCode? c.toNat = some c := by
  have valid : c.toNat.isValidChar := c.valid
  rw [runeOfCode?, if_pos valid, Char.ofNat_toNat]

/-- The chunk that a rune is written with, where reading takes it back. -/
inductive Chunk : Char → List Char → Prop
  | plain {c : Char} (visible : ' ' ≤ c) (notQuote : c ≠ '"') (notBackslash : c ≠ '\\') :
      Chunk c [c]
  | letter {c letter : Char} (isLetter : letterRune? letter = some c) : Chunk c ['\\', letter]
  | short {c : Char} (small : c.toNat < 0x10000) :
      Chunk c ('\\' :: 'u' :: asciiRunes (hexDigits 4 c.toNat))
  | long (c : Char) : Chunk c ('\\' :: 'U' :: asciiRunes (hexDigits 8 c.toNat))

/-- A chunk is decoded by itself, whatever stands behind it. -/
theorem Chunk.decode?_append {c : Char} {chunk : List Char} (isChunk : Chunk c chunk)
    (rest : List Char) : decode? (chunk ++ rest) = (decode? rest).map (c :: ·) := by
  have byCode : (runeOfCode? c.toNat >>= fun rune =>
      decode? rest >>= fun runes => some (rune :: runes)) = (decode? rest).map (c :: ·) := by
    rw [runeOfCode?_toNat]
    cases decode? rest <;> rfl
  cases isChunk with
  | plain _ _ notBackslash =>
      rw [List.singleton_append, decode?, if_neg notBackslash]
      all_goals simp [notBackslash]
  | @letter letter isLetter =>
      have notCode : letter ≠ 'u' ∧ letter ≠ 'U' := by
        constructor <;> rintro rfl <;> cases isLetter
      rw [List.cons_append, List.singleton_append, decode?, isLetter]
      · cases decode? rest <;> rfl
      · simp [notCode]
      · simp [notCode]
  | short small =>
      have code : hexNumber? (asciiRunes (hexDigits 4 c.toNat)) = some c.toNat :=
        hexNumber?_hexDigits small
      obtain ⟨a, b, d, e, digits⟩ : ∃ a b d e, asciiRunes (hexDigits 4 c.toNat) = [a, b, d, e] :=
        ⟨_, _, _, _, rfl⟩
      rw [digits] at code ⊢
      simp only [List.cons_append, List.nil_append]
      rw [decode?, code]
      exact byCode
  | long =>
      have code : hexNumber? (asciiRunes (hexDigits 8 c.toNat)) = some c.toNat :=
        hexNumber?_hexDigits c.val.toNat_lt
      obtain ⟨a, b, d, e, f, g, h, i, digits⟩ : ∃ a b d e f g h i,
          asciiRunes (hexDigits 8 c.toNat) = [a, b, d, e, f, g, h, i] :=
        ⟨_, _, _, _, _, _, _, _, rfl⟩
      rw [digits] at code ⊢
      simp only [List.cons_append, List.nil_append]
      rw [decode?, code]
      exact byCode

theorem Chunk.ne_nil {c : Char} {chunk : List Char} (isChunk : Chunk c chunk) : chunk ≠ [] := by
  cases isChunk <;> exact List.cons_ne_nil _ _

/-- Runes, each with a chunk that it is read from. -/
def AreChunks (pieces : List (Char × List Char)) : Prop :=
  ∀ piece ∈ pieces, Chunk piece.1 piece.2

/-- Chunks one after the other are decoded to their runes. -/
theorem AreChunks.decode?_flatMap {pieces : List (Char × List Char)}
    (areChunks : AreChunks pieces) :
    decode? (pieces.flatMap Prod.snd) = some (pieces.map Prod.fst) := by
  induction pieces with
  | nil => rfl
  | cons piece pieces ih =>
      obtain ⟨isChunk, later⟩ := List.forall_mem_cons.mp areChunks
      rw [List.flatMap_cons, isChunk.decode?_append, ih later]
      rfl

/-- An escape that writing uses and reading does not know. -/
def Refused (text : List Char) : Prop :=
  ∃ letter ∈ ['a', 'v', 'x'], ∃ rest, text = '\\' :: letter :: rest

/-- A rune that is read back: it is no control, or one of the controls with a letter that reading
knows. -/
def isKept (c : Char) : Bool :=
  (0x20 ≤ c.toNat && c.toNat != 0x7F) || ['\x08', '\t', '\n', '\x0c', '\r'].contains c

theorem isKept_of_le {c : Char} (visible : 0x20 ≤ c.toNat) (notDelete : c.toNat ≠ 0x7F) :
    isKept c = true := by
  simp [isKept, visible, notDelete]

/-- Of the letters that writing uses for a control, reading knows those of the kept controls. -/
theorem letterEscapes_cases {c letter : Char} (found : letterEscapes.lookup c = some letter) :
    isKept c = true ∧ letterRune? letter = some c ∨
      isKept c = false ∧ letter ∈ ['a', 'v', 'x'] := by
  have table : letterEscapes.all (fun entry =>
      isKept entry.1 && letterRune? entry.2 == some entry.1 ||
        !isKept entry.1 && ['a', 'v', 'x'].contains entry.2) = true :=
    rfl
  obtain ⟨before, after, split, _⟩ := List.lookup_eq_some_iff.mp found
  have entry := List.all_eq_true.mp table (c, letter) (by simp [split])
  simpa using entry

/-- Every rune is written as one chunk, which reading takes or refuses. -/
theorem exists_encodeRune_eq (c : Char) : ∃ chunk, encodeRune c = ofRunes chunk ∧
    (isKept c = true ∧ Chunk c chunk ∨ isKept c = false ∧ Refused chunk) := by
  unfold encodeRune
  split
  next isMark =>
    refine ⟨['\\', c], rfl, .inl ?_⟩
    obtain rfl | rfl := isMark
    · exact ⟨rfl, .letter rfl⟩
    · exact ⟨rfl, .letter rfl⟩
  next notMark =>
    rw [not_or] at notMark
    split
    next isPrintable =>
      obtain ⟨visible, notDelete⟩ := Rune.le_of_isPrintable isPrintable
      exact ⟨[c], rfl, .inl ⟨isKept_of_le visible notDelete, .plain visible notMark.1 notMark.2⟩⟩
    next notPrintable =>
      split
      next letter found =>
        refine ⟨['\\', letter], rfl, ?_⟩
        obtain ⟨kept, isLetter⟩ | ⟨lost, unknown⟩ := letterEscapes_cases found
        · exact .inl ⟨kept, .letter isLetter⟩
        · exact .inr ⟨lost, letter, unknown, [], rfl⟩
      next noLetter =>
        split
        next control =>
          have lost : isKept c = false := by
            have hidden : (0x20 ≤ c.toNat && c.toNat != 0x7F) = false := by
              simp only [Bool.and_eq_false_iff, decide_eq_false_iff_not, bne_eq_false_iff_eq]
              omega
            rw [List.lookup_eq_none_iff] at noLetter
            rw [isKept, hidden]
            simp_all [letterEscapes]
          refine ⟨_, (Bytes.ofRunes_append_hexDigits ['\\', 'x'] 2 _).symm, .inr ⟨lost, ?_⟩⟩
          exact ⟨'x', by simp, _, rfl⟩
        next visible =>
          have kept : isKept c = true := isKept_of_le (by omega) (by omega)
          split
          next small =>
            exact ⟨_, (Bytes.ofRunes_append_hexDigits ['\\', 'u'] 4 _).symm,
              .inl ⟨kept, .short small⟩⟩
          next =>
            exact ⟨_, (Bytes.ofRunes_append_hexDigits ['\\', 'U'] 8 _).symm, .inl ⟨kept, .long c⟩⟩

/-- A rune with its encoding that is read back. -/
def IsKeptPiece (piece : Char × Bytes) : Prop :=
  piece.2 = String.utf8EncodeChar piece.1 ∧ isKept piece.1 = true

theorem encodePiece_encoding (c : Char) :
    encodePiece (c, String.utf8EncodeChar c) = encodeRune c := by
  have decoded : Rune.first? (String.utf8EncodeChar c) = some c :=
    Rune.first?_eq_some_iff.mpr (List.prefix_refl _)
  unfold encodePiece
  split
  next undecoded => exact absurd (decoded.symm.trans undecoded) (Option.some_ne_none c)
  next => rfl

/-- Every piece of a text is written as one chunk, which reading takes or refuses. -/
theorem exists_encodePiece_eq {text : Bytes} {piece : Char × Bytes}
    (member : piece ∈ text.runePieces) : ∃ chunk, encodePiece piece = ofRunes chunk ∧
      (IsKeptPiece piece ∧ Chunk piece.1 chunk ∨ ¬ IsKeptPiece piece ∧ Refused chunk) := by
  obtain ⟨c, bytes⟩ := piece
  obtain encoded | ⟨b, alone, undecoded⟩ := Bytes.encoded_or_undecoded_of_mem_runePieces member
  · dsimp only at encoded
    subst encoded
    rw [encodePiece_encoding]
    simpa [IsKeptPiece] using exists_encodeRune_eq c
  · dsimp only at alone
    subst alone
    have written : encodePiece (c, [b]) = byteEscape b.toNat := by
      simp only [encodePiece, undecoded]
    have notEncoding : [b] ≠ String.utf8EncodeChar c := by
      intro encoded
      rw [encoded, Rune.first?_eq_some_iff.mpr (List.prefix_refl _)] at undecoded
      cases undecoded
    refine ⟨'\\' :: 'x' :: asciiRunes (hexDigits 2 b.toNat), ?_, .inr ⟨?_, ?_⟩⟩
    · rw [written]
      exact (Bytes.ofRunes_append_hexDigits ['\\', 'x'] 2 _).symm
    · exact fun kept => notEncoding kept.1
    · exact ⟨'x', by simp, _, rfl⟩

/-- A text that is read back after it was written: it is well encoded, and all its runes are. -/
def IsReadable (text : Bytes) : Prop :=
  text.IsUtf8 ∧ ∀ c ∈ text.runes, isKept c = true

theorem isReadable_iff {text : Bytes} :
    IsReadable text ↔ ∀ piece ∈ text.runePieces, IsKeptPiece piece := by
  rw [IsReadable, Bytes.isUtf8_iff, Bytes.runes, List.forall_mem_map]
  constructor
  · rintro ⟨encoded, kept⟩ piece member
    exact ⟨encoded piece member, kept piece member⟩
  · intro each
    exact ⟨fun piece member => (each piece member).1, fun piece member => (each piece member).2⟩

theorem isReadable_ofRunes {runes : List Char} (kept : ∀ c ∈ runes, isKept c = true) :
    IsReadable (ofRunes runes) :=
  ⟨⟨runes, rfl⟩, by rwa [Bytes.runes_ofRunes]⟩

/-- A text of printable bytes is read back. -/
theorem isReadable_of_printable {text : Bytes}
    (printable : ∀ b ∈ text, 0x20 ≤ b.toNat ∧ b.toNat < 0x7F) : IsReadable text := by
  have ascii : ∀ b ∈ text, b < 0x80 := by
    intro b member
    exact UInt8.lt_iff_toNat_lt.mpr (Nat.lt_succ_of_lt (printable b member).2)
  rw [← Bytes.ofRunes_asciiRunes ascii]
  apply isReadable_ofRunes
  intro c member
  obtain ⟨b, isByte, rfl⟩ := List.mem_map.mp member
  have code := Rune.toNat_ofNat (ascii b isByte)
  have range := printable b isByte
  exact isKept_of_le (by omega) (by omega)

/-- Pieces are written as chunks that reading takes, up to the first one that it refuses. -/
theorem exists_flatMap_encodePiece_eq {pieces : List (Char × Bytes)}
    (each : ∀ piece ∈ pieces, ∃ chunk, encodePiece piece = ofRunes chunk ∧
      (IsKeptPiece piece ∧ Chunk piece.1 chunk ∨ ¬ IsKeptPiece piece ∧ Refused chunk)) :
    ∃ chunks rest, AreChunks chunks ∧
      pieces.flatMap encodePiece = ofRunes (chunks.flatMap Prod.snd ++ rest) ∧
      ((∀ piece ∈ pieces, IsKeptPiece piece) ∧ chunks.map Prod.fst = pieces.map Prod.fst ∧
          rest = [] ∨
        ¬ (∀ piece ∈ pieces, IsKeptPiece piece) ∧ Refused rest) := by
  induction pieces with
  | nil => exact ⟨[], [], by simp [AreChunks], rfl, .inl ⟨by simp, rfl, rfl⟩⟩
  | cons piece pieces ih =>
      rw [List.forall_mem_cons] at each
      obtain ⟨⟨chunk, written, this⟩, later⟩ := each
      obtain ⟨chunks, rest, areChunks, writtenLater, ended⟩ := ih later
      rw [List.flatMap_cons, written, writtenLater, ← Bytes.ofRunes_append, List.forall_mem_cons]
      obtain ⟨kept, isChunk⟩ | ⟨lost, letter, unknown, others, rfl⟩ := this
      · refine ⟨(piece.1, chunk) :: chunks, rest, ?_, ?_, ?_⟩
        · exact List.forall_mem_cons.mpr ⟨isChunk, areChunks⟩
        · rw [List.flatMap_cons, List.append_assoc]
        · rw [and_iff_right kept, List.map_cons, List.map_cons, List.cons_inj_right]
          exact ended
      · refine ⟨[], _, by simp [AreChunks], rfl, .inr ⟨fun all => lost all.1, ?_⟩⟩
        exact ⟨letter, unknown, others ++ (chunks.flatMap Prod.snd ++ rest), rfl⟩

theorem encode_eq_ofRunes {text : Bytes} {inside : List Char}
    (written : text.runePieces.flatMap encodePiece = ofRunes inside) :
    encode text = ofRunes ('"' :: (inside ++ ['"'])) := by
  rw [encode, written, ← List.singleton_append, Bytes.ofRunes_append, Bytes.ofRunes_append,
    List.append_assoc]
  rfl

/-- A readable text is written as the chunks of its runes between quotes. -/
theorem IsReadable.exists_encode_eq {text : Bytes} (readable : IsReadable text) :
    ∃ chunks, AreChunks chunks ∧ chunks.map Prod.fst = text.runes ∧
      encode text = ofRunes ('"' :: (chunks.flatMap Prod.snd ++ ['"'])) := by
  rw [isReadable_iff] at readable
  obtain ⟨chunks, rest, areChunks, written, ⟨_, runes, rfl⟩ | ⟨lost, _⟩⟩ :=
    exists_flatMap_encodePiece_eq fun piece (member : piece ∈ text.runePieces) =>
      exists_encodePiece_eq member
  · rw [List.append_nil] at written
    exact ⟨chunks, areChunks, runes, encode_eq_ofRunes written⟩
  · exact absurd readable lost

/-- Any other text is written with a chunk that reading refuses. -/
theorem exists_encode_eq_of_not_isReadable {text : Bytes} (unreadable : ¬ IsReadable text) :
    ∃ chunks rest, AreChunks chunks ∧ Refused rest ∧
      encode text = ofRunes ('"' :: (chunks.flatMap Prod.snd ++ rest)) := by
  rw [isReadable_iff] at unreadable
  obtain ⟨chunks, rest, areChunks, written, ⟨kept, _⟩ | ⟨_, letter, unknown, others, rfl⟩⟩ :=
    exists_flatMap_encodePiece_eq fun piece (member : piece ∈ text.runePieces) =>
      exists_encodePiece_eq member
  · exact absurd kept unreadable
  · refine ⟨chunks, '\\' :: letter :: (others ++ ['"']), areChunks, ?_, ?_⟩
    · exact ⟨letter, unknown, _, rfl⟩
    · rw [encode_eq_ofRunes written, List.append_assoc]
      rfl

/-- Whatever the text, it is written well encoded. -/
theorem ofRunes_runes_encode (text : Bytes) : ofRunes (encode text).runes = encode text := by
  obtain ⟨runes, written⟩ : ∃ runes, encode text = ofRunes runes := by
    by_cases readable : IsReadable text
    · obtain ⟨_, _, _, written⟩ := readable.exists_encode_eq
      exact ⟨_, written⟩
    · obtain ⟨_, _, _, _, written⟩ := exists_encode_eq_of_not_isReadable readable
      exact ⟨_, written⟩
  rw [written, Bytes.runes_ofRunes]

end Quoted

end VarPrint
