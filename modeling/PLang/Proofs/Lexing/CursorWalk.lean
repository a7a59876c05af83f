import Mathlib.Algebra.GroupWithZero.Nat
import PLang.Proofs.Lexing.Lossless
import PLang.Source.Cursor

/-!
# Cursors and the text behind them

A cursor counts lines while it walks. However its way is cut into steps, also in the middle of a
token or past the end of the text, its counts are those of the bytes that lie behind it.
-/

namespace PLang

/-- The line on which some bytes end starts at `start`: behind their last newline, or where they
start if they have none. -/
structure LastLineStart (bytes : List UInt8) (start : Nat) : Prop where
  le : start ≤ bytes.length
  newline : start = 0 ∨ bytes[start - 1]? = some 10
  last : 10 ∉ bytes.drop start

theorem LastLineStart.nil : LastLineStart [] 0 := ⟨Nat.le_refl 0, .inl rfl, List.not_mem_nil⟩

namespace LastLineStart

variable {bytes : List UInt8} {start : Nat} {byte : UInt8}

/-- Only one place is the start of the last line. -/
theorem unique {start' : Nat} (h : LastLineStart bytes start) (h' : LastLineStart bytes start') :
    start = start' := by
  -- the newline before the later place would stand behind the earlier one
  have hle : ∀ {a b : Nat}, LastLineStart bytes a → LastLineStart bytes b → b ≤ a := by
    intro a b ha hb
    by_contra hlt
    have hbyte : bytes[b - 1]? = some 10 := hb.newline.resolve_left (by omega)
    refine ha.last (List.mem_of_getElem? (i := b - 1 - a) ?_)
    rw [List.getElem?_drop, ← hbyte]
    congr 1
    omega
  exact Nat.le_antisymm (hle h' h) (hle h h')

theorem newlineByte (bytes : List UInt8) : LastLineStart (bytes ++ [10]) (bytes.length + 1) where
  le := by simp
  newline := .inr (by simp)
  last := by simp

theorem otherByte (h : LastLineStart bytes start) (hbyte : byte ≠ 10) :
    LastLineStart (bytes ++ [byte]) start where
  le := by
    have := h.le
    simp
    omega
  newline := h.newline.imp_right fun hnewline => by
    rw [List.getElem?_append_left (List.getElem?_eq_some_iff.1 hnewline).1, hnewline]
  last := by
    rw [List.drop_append_of_le_length h.le, List.mem_append, List.mem_singleton]
    exact fun hmem => hmem.elim h.last fun heq => hbyte heq.symm

end LastLineStart

/-- One byte more: only a newline moves the start of the line. -/
theorem lastLineStart_afterBytes (bytes : List UInt8) :
    LastLineStart bytes (Position.start.afterBytes bytes).lineStart := by
  induction bytes using List.reverseRecOn with
  | nil => exact .nil
  | append_singleton bytes byte ih =>
    have hstep : Position.start.afterBytes (bytes ++ [byte]) =
        (Position.start.afterBytes bytes).afterByte byte := Position.afterBytes_append _ _ _
    have hoffset : (Position.start.afterBytes bytes).offset = bytes.length := by
      rw [Position.offset_afterBytes, Position.start, Nat.zero_add]
    rw [hstep, Position.afterByte]
    by_cases hbyte : byte = 10
    · rw [if_pos hbyte, hbyte, hoffset]
      exact LastLineStart.newlineByte bytes
    · rw [if_neg hbyte]
      exact ih.otherByte hbyte

namespace Cursor

/-- Steps are one step of their whole length. -/
theorem foldl_advance (counts : List Nat) (c : Cursor) :
    counts.foldl advance (c.advance 0) = c.advance counts.sum := by
  have hfrom : ∀ n, counts.foldl advance (c.advance n) = c.advance (n + counts.sum) := by
    induction counts with
    | nil => simp
    | cons count counts ih =>
      intro n
      rw [List.foldl_cons, advance_advance, ih, List.sum_cons, Nat.add_assoc]
  rw [hfrom, Nat.zero_add]

theorem advance_zero (c : Cursor) : c.advance 0 = c := by
  simp [advance]

/-- The bytes that steps pass are those up to their sum. -/
theorem foldl_advance_ofText (text : List Char) (counts : List Nat) :
    counts.foldl advance (ofText text) =
      ⟨text, Position.start.afterBytes ((utf8Bytes text).take counts.sum)⟩ := by
  rw [← advance_zero (ofText text), foldl_advance]
  rfl

/-- A cursor always agrees with the text. After any steps its offset is their sum, or the length of
the text if this is less, its line is one more than the number of newlines behind it, and its line
starts behind the last one of them. So its location is that line and one more than the number of
bytes on it, and it does not matter how a way is cut into steps. Lines and columns are 32-bit
numbers. They are the exact counts wherever these fit, and so everywhere in a text of less than `2 ^
32 - 1` bytes. -/
theorem advance_agrees (text : List Char) (counts : List Nat) :
    let c := counts.foldl advance (ofText text)
    let behind := (utf8Bytes text).take c.position.offset
    c.text = text ∧ c.position.offset = min counts.sum (utf8Bytes text).length ∧
      c.position.line = .ofNat (1 + behind.count 10) ∧
      (∀ start, LastLineStart behind start ↔ start = c.position.lineStart) ∧
      c.position.lineStart ≤ c.position.offset ∧
      c.location =
        ⟨c.position.line, .ofNat (c.position.offset - c.position.lineStart + 1)⟩ ∧
      (1 + behind.count 10 < 0x100000000 → c.location.line.toNat = 1 + behind.count 10) ∧
      (c.position.offset - c.position.lineStart + 1 < 0x100000000 →
        c.location.col.toNat = c.position.offset - c.position.lineStart + 1) ∧
      ((utf8Bytes text).length < 0xFFFFFFFF → 1 + behind.count 10 < 0x100000000 ∧
        c.position.offset - c.position.lineStart + 1 < 0x100000000) ∧
      ∀ a b, (c.advance a).advance b = c.advance (a + b) := by
  intro c behind
  have hrun : c = _ := foldl_advance_ofText text counts
  have hoffset : c.position.offset = min counts.sum (utf8Bytes text).length := by
    rw [hrun, Position.offset_afterBytes, List.length_take, Position.start, Nat.zero_add]
  have hbehind : (utf8Bytes text).take counts.sum = behind := by
    show _ = (utf8Bytes text).take c.position.offset
    rw [hoffset, ← List.take_eq_take_min]
  rw [hbehind] at hrun
  have hline : c.position.line = .ofNat (1 + behind.count 10) := by
    rw [hrun, (afterBytes_start behind).1]
  have hstart : LastLineStart behind c.position.lineStart := by
    rw [hrun]
    exact lastLineStart_afterBytes behind
  have hlength : behind.length = c.position.offset := by
    rw [hrun, Position.offset_afterBytes, Position.start, Nat.zero_add]
  refine ⟨by rw [hrun], hoffset, hline, fun start =>
    ⟨fun h => h.unique hstart, fun h => h ▸ hstart⟩,
    hlength ▸ hstart.le, rfl, fun hfits => ?_, fun hfits => UInt32.toNat_ofNat_of_lt' hfits,
    fun hshort => ?_, advance_advance c⟩
  · show c.position.line.toNat = _
    rw [hline]
    exact UInt32.toNat_ofNat_of_lt' hfits
  · have hcount : behind.count 10 ≤ behind.length := List.count_le_length
    omega

end Cursor

end PLang
