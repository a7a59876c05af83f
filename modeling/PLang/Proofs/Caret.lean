import PLang.Proofs.ErrorLocations

/-!
# The caret

An error is shown with the line that it is on, and with a caret below. Columns are counted in bytes
and the caret is set in by characters, so it stands below what the error points at exactly if only
ASCII characters lead up to it. Behind any other character it stands too far to the right.
-/

namespace PLang

variable {before lead tail after front rest text : List Char} {source : String} {e : Error}

/-! ### Bytes and characters -/

theorem byteLength_cons (c : Char) : byteLength (c :: text) = c.utf8Size + byteLength text := by
  rw [byteLength, utf8Bytes, List.flatMap_cons, List.length_append, String.length_utf8EncodeChar]
  rfl

/-- A text has at least as many bytes as characters. -/
theorem length_le_byteLength (text : List Char) : text.length ≤ byteLength text := by
  induction text with
  | nil => exact Nat.zero_le _
  | cons c text ih =>
    have hpos := c.utf8Size_pos
    rw [byteLength_cons, List.length_cons]
    omega

/-- A text has as many bytes as characters exactly if all of them are ASCII. -/
theorem byteLength_eq_length_iff : byteLength text = text.length ↔ ∀ c ∈ text, c.toNat < 0x80 := by
  induction text with
  | nil => exact iff_of_true rfl fun _ h => absurd h List.not_mem_nil
  | cons c text ih =>
    have hone : c.utf8Size = 1 ↔ c.toNat < 0x80 := by
      rw [Char.utf8Size_eq_one_iff, UInt32.le_iff_toNat_le]
      exact Nat.lt_succ_iff.symm
    have hpos := c.utf8Size_pos
    have hle := length_le_byteLength text
    rw [List.forall_mem_cons, ← ih, ← hone, byteLength_cons, List.length_cons]
    omega

/-! ### What is shown -/

/-- An error points at no newline. -/
theorem Error.PointsAt.head?_ne (h : e.PointsAt source front rest) : rest.head? ≠ some '\n' := by
  cases h with
  | token _ _ hscanned _ =>
    obtain ⟨c, lexeme, hlexeme⟩ := List.exists_cons_of_ne_nil hscanned.1.ne_nil
    have hnot := hscanned.1.newline_not_mem
    rw [hlexeme] at hnot ⊢
    exact fun hc => hnot (Option.some.inj hc ▸ (.head _))
  | endOfFile => exact fun hc => by cases hc
  | @character c _ rest _ _ hunmatched =>
    intro hc
    cases hc
    refine hunmatched .blanks (by decide) ['\n'] ⟨rest, rfl⟩ ?_
    exact ⟨List.cons_ne_nil _ _, by decide⟩

/-- What leads up to the place of an error is shown. -/
theorem lead_of_shownLine (htail : (tail ++ after).head? ≠ some '\n')
    (hafter : after = [] ∨ after.head? = some '\n') :
    ∃ more, shownLine (lead ++ tail) after = lead ++ more := by
  rw [shownLine]
  split
  next hreturn =>
    have hne : tail ≠ [] := by
      rintro rfl
      exact htail (hafter.resolve_left hreturn.1)
    exact ⟨tail.dropLast, List.dropLast_append_of_ne_nil hne⟩
  next => exact ⟨tail, rfl⟩

/-- How an error is shown that is on a line, behind a part of it. -/
theorem IsLine.render_eq {line : List Char} (h : IsLine source.toList before line after)
    (hnumber : e.location.line.toNat = 1 + before.count '\n')
    (hcol : e.location.col.toNat = 1 + byteLength lead) :
    (Diagnostics.ofSource source).render e =
      "<Error> Found in line " ++ toString (1 + before.count '\n') ++ ", column " ++
        toString (1 + byteLength lead) ++ ": " ++ e.cause.message ++ "\n" ++
        String.ofList (shownLine line after) ++ "\n" ++
        String.ofList (List.replicate (byteLength lead) ' ') ++ "^\n" := by
  have hline : toString e.location.line = toString (1 + before.count '\n') :=
    congrArg toString hnumber
  have hcolumn : toString e.location.col = toString (1 + byteLength lead) := congrArg toString hcol
  delta Diagnostics.render
  rw [hline, hcolumn, h.sourceLine_eq hnumber, hcol, Nat.add_sub_cancel_left]

/-- The caret of an error. In a source of less than `2 ^ 32` bytes, an error that comes from
checking or parsing it points at a token, at the end of the file or at a character. Unless this is
the end of a source that is too long for locations, the error is shown in three parts: where and
what it is, the line that it is on, and a caret as many spaces in as there are bytes before the
place on this line. So the caret is below the place exactly if the characters before it are ASCII
characters, and it is never too far to the left. -/
theorem render_caret (hshort : byteLength source.toList < 0x100000000)
    (options : CheckOptions) (diagnostics : Diagnostics) (limit : Nat) :
    ∃ es, (checkSource source options diagnostics).diagnostics.errors = diagnostics.errors ++ es ∧
      ∀ e, e ∈ es ∨ (checkSource source options diagnostics).outcome = .error e ∨
          parseSource source limit = .error e → e.Overruns source ∨
        ∃ before lead tail after more, IsLine source.toList before (lead ++ tail) after ∧
          e.PointsAt source (before ++ lead) (tail ++ after) ∧
          e.location.line.toNat = 1 + before.count '\n' ∧
          e.location.col.toNat = 1 + byteLength lead ∧
          shownLine (lead ++ tail) after = lead ++ more ∧
          (Diagnostics.ofSource source).render e =
            "<Error> Found in line " ++ toString (1 + before.count '\n') ++ ", column " ++
              toString (1 + byteLength lead) ++ ": " ++ e.cause.message ++ "\n" ++
              String.ofList (lead ++ more) ++ "\n" ++
              String.ofList (List.replicate (byteLength lead) ' ') ++ "^\n" ∧
          lead.length ≤ byteLength lead ∧
          (byteLength lead = lead.length ↔ ∀ c ∈ lead, c.toNat < 0x80) := by
  obtain ⟨-, es, herrors, hfrom⟩ := checkSource_errors source options diagnostics
  refine ⟨es, herrors, fun e he => ?_⟩
  have hcomes : e.ComesFrom source := by
    rcases he with he | he | he
    · exact hfrom e (.inl he)
    · exact hfrom e (.inr he)
    · exact comesFrom_of_parseSource he
  refine (hcomes.located_or_overruns hshort).symm.imp_right fun hlocated => ?_
  obtain ⟨before, lead, tail, after, hline, hnumber, hcol, hpoints⟩ := hlocated.place
  obtain ⟨more, hshown⟩ := lead_of_shownLine hpoints.head?_ne hline.stop
  refine ⟨before, lead, tail, after, more, hline, hpoints, hnumber, hcol, hshown, ?_,
    length_le_byteLength lead, byteLength_eq_length_iff⟩
  rw [← hshown]
  exact hline.render_eq hnumber hcol

/-- A source with an error behind a character that is not ASCII. -/
def accentedSource : String := "p; begin print /* é */ x; end end"

theorem render_caret_accentedSource :
    (checkSource accentedSource ⟨false, 9⟩ .silent).diagnostics.errors =
        [⟨.undeclared "x", ⟨1, 25⟩⟩] ∧
      ∃ lead tail more, accentedSource.toList = lead ++ tail ∧ lead.length = 23 ∧
        Error.PointsAt accentedSource ⟨.undeclared "x", ⟨1, 25⟩⟩ lead tail ∧
        (Diagnostics.ofSource accentedSource).render ⟨.undeclared "x", ⟨1, 25⟩⟩ =
          "<Error> Found in line 1, column 25: " ++ (Cause.undeclared "x").message ++ "\n" ++
            String.ofList (lead ++ more) ++ "\n" ++ String.ofList (List.replicate 24 ' ') ++
            "^\n" := by
  have hshort : byteLength accentedSource.toList < 0x100000000 := by decide +kernel
  have hreported : (checkSource accentedSource ⟨false, 9⟩ .silent).diagnostics.errors =
      [⟨.undeclared "x", ⟨1, 25⟩⟩] := by decide +kernel
  obtain ⟨es, herrors, hcaret⟩ := render_caret hshort ⟨false, 9⟩ .silent 9
  obtain rfl : es = [⟨.undeclared "x", ⟨1, 25⟩⟩] := herrors.symm.trans hreported
  have hfits : ¬Error.Overruns accentedSource ⟨.undeclared "x", ⟨1, 25⟩⟩ := fun hoverruns =>
    absurd hoverruns.length (by decide +kernel)
  obtain ⟨before, lead, tail, after, more, hline, hpoints, hcount, hbytes, -, hrender, hle, -⟩ :=
    (hcaret _ (.inl (List.mem_singleton_self _))).resolve_left hfits
  change 1 = 1 + before.count '\n' at hcount
  change 25 = 1 + byteLength lead at hbytes
  -- the place is on the first line, and only one part of it has as many bytes
  obtain rfl : before = [] := by
    refine hline.start.resolve_right fun hlast => ?_
    have hpos := List.count_pos_iff.2 (List.mem_of_mem_getLast? hlast)
    omega
  have hsplit : accentedSource.toList = lead ++ (tail ++ after) :=
    hline.split.trans (List.append_assoc lead tail after)
  have hlength : ∀ n < 25, byteLength (accentedSource.toList.take n) = 24 → n = 23 := by
    decide +kernel
  have hbytes' : byteLength lead = 24 := by omega
  refine ⟨hreported, lead, tail ++ after, more, hsplit, hlength _ (by omega) ?_, hpoints, ?_⟩
  · rw [hsplit, List.take_left, hbytes']
  · rw [hrender, hbytes']
    rfl

end PLang
