import PLang.Proofs.Checking.Discipline
import PLang.Proofs.Lexing.LineByLine
import PLang.Proofs.Spacing

/-!
# Errors stand in the source

Every error of a source points at one of its tokens, or at the character that starts no token. So it
stands on a line of the source, and the line that is shown with it is this line. Lines are counted
twice, by newline bytes where tokens are read and by `linesOf` where they are shown.
-/

namespace PLang

open Check Diagnostics List

variable {text before line after rest front lead tail : List Char} {source : String} {e : Error}

/-! ### Lines of a text -/

/-- A text ends where a line may start: it is empty, or it ends in a newline. -/
def EndsLine (before : List Char) : Prop := before = [] ∨ before.getLast? = some '\n'

/-- A whole line of a text, with what is before and after it. It is the first line or follows a
newline, and it is the last line or a newline follows. -/
structure IsLine (text before line after : List Char) : Prop where
  split : text = before ++ line ++ after
  start : EndsLine before
  stop : after = [] ∨ after.head? = some '\n'
  unbroken : '\n' ∉ line

/-- A line as it is shown. A carriage return in front of the newline that ends it is left out. -/
def shownLine (line after : List Char) : List Char :=
  if after ≠ [] ∧ line.getLast? = some '\r' then line.dropLast else line

/-- A character that ends no line, in front of the last line. -/
theorem linesOf_cons_of_nil {c : Char} (hc : c ≠ '\n') (hrest : linesOf rest = []) :
    linesOf (c :: rest) = [[c]] := by
  have hreturn : ∀ text, c = '\r' → rest = '\n' :: text → False := by
    rintro text - rfl
    rw [linesOf.eq_3] at hrest
    cases hrest
  rw [linesOf.eq_4 c rest hreturn hc, hrest]

/-- A character that ends no line, in front of more lines. -/
theorem linesOf_cons_of_cons {c : Char} {lines : List (List Char)} (hc : c ≠ '\n')
    (hreturn : c = '\r' → rest.head? ≠ some '\n') (hrest : linesOf rest = line :: lines) :
    linesOf (c :: rest) = (c :: line) :: lines := by
  have hpair : ∀ text, c = '\r' → rest = '\n' :: text → False := by
    rintro text rfl rfl
    exact hreturn rfl rfl
  rw [linesOf.eq_4 c rest hpair hc, hrest]

/-- The first line of a text that has more. -/
theorem linesOf_newline (h : '\n' ∉ line) (rest : List Char) :
    linesOf (line ++ '\n' :: rest) = shownLine line ('\n' :: rest) :: linesOf rest := by
  induction line with
  | nil => rfl
  | cons c line ih =>
    obtain ⟨hc, hline⟩ := ne_and_not_mem_of_not_mem_cons h
    by_cases hpair : c = '\r' ∧ line = []
    · obtain ⟨rfl, rfl⟩ := hpair
      rfl
    · have hshown : shownLine (c :: line) ('\n' :: rest) =
          c :: shownLine line ('\n' :: rest) := by
        cases line with
        | nil => simpa [shownLine] using fun hc => hpair ⟨hc, rfl⟩
        | cons d line =>
          simp only [shownLine, getLast?_cons_cons, dropLast_cons_cons]
          split <;> rfl
      rw [hshown]
      refine linesOf_cons_of_cons (Ne.symm hc) (fun hreturn hhead => ?_) (ih hline)
      cases line with
      | nil => exact hpair ⟨hreturn, rfl⟩
      | cons d line => exact hline (by simp [Option.some.inj hhead])

/-- The last line of a text, which is no line if it is empty. -/
theorem linesOf_last (h : '\n' ∉ line) : linesOf line = if line = [] then [] else [line] := by
  induction line with
  | nil => rfl
  | cons c line ih =>
    obtain ⟨hc, hline⟩ := ne_and_not_mem_of_not_mem_cons h
    rw [if_neg (cons_ne_nil c line)]
    by_cases hnil : line = []
    · subst hnil
      exact linesOf_cons_of_nil (Ne.symm hc) rfl
    · refine linesOf_cons_of_cons (Ne.symm hc) (fun _ hhead => ?_) ((ih hline).trans (if_neg hnil))
      exact hline (mem_of_mem_head? hhead)

/-- As many lines as there are newlines come before what follows them. -/
theorem drop_linesOf (h : EndsLine before) (rest : List Char) :
    (linesOf (before ++ rest)).drop (before.count '\n') = linesOf rest := by
  induction hn : before.length using Nat.strongRecOn generalizing before with
  | ind n ih =>
    rcases h with rfl | hlast
    · rfl
    · obtain ⟨line, behind, rfl, hline⟩ :=
        eq_append_cons_of_mem (mem_of_mem_getLast? hlast)
      have hbehind : EndsLine behind := by
        cases behind with
        | nil => exact .inl rfl
        | cons d behind => exact .inr (by simpa [getLast?_append] using hlast)
      have hshort : behind.length < n := by
        rw [← hn, length_append, length_cons]
        omega
      rw [count_append, count_cons_self, count_eq_zero_of_not_mem hline, Nat.zero_add,
        append_assoc, cons_append, linesOf_newline hline, drop_succ_cons,
        ih _ hshort hbehind rfl]

namespace IsLine

/-- The line that is shown under the number of a line is that line. -/
theorem sourceLine_eq (h : IsLine source.toList before line after) {number : UInt32}
    (hnumber : number.toNat = 1 + before.count '\n') :
    (ofSource source).sourceLine number = String.ofList (shownLine line after) := by
  have hfirst : (linesOf (line ++ after)).head?.getD [] = shownLine line after := by
    cases after with
    | nil =>
      rw [append_nil, linesOf_last h.unbroken]
      by_cases hline : line = [] <;> simp [shownLine, hline]
    | cons c after =>
      obtain rfl : c = '\n' := by simpa using h.stop
      rw [linesOf_newline h.unbroken]
      rfl
  have hdrop := drop_linesOf h.start (line ++ after)
  rw [← append_assoc, ← h.split] at hdrop
  have hzero : number ≠ 0 := by
    rintro rfl
    change 0 = 1 + before.count '\n' at hnumber
    omega
  rw [sourceLine, if_neg hzero, hnumber, Nat.add_sub_cancel_left, ofSource,
    textLines, getD_eq_getElem?_getD, getElem?_map, ← hfirst, ← hdrop, head?_drop]
  cases (linesOf source.toList)[before.count '\n']? <;> rfl

end IsLine

/-! ### The line of a place -/

/-- What stands in front of a place is whole lines and the part of a line that leads up to it. -/
theorem exists_lead (front : List Char) :
    ∃ before lead, front = before ++ lead ∧ EndsLine before ∧ '\n' ∉ lead := by
  induction front using reverseRecOn with
  | nil => exact ⟨[], [], rfl, .inl rfl, not_mem_nil⟩
  | append_singleton front c ih =>
    obtain ⟨before, lead, rfl, hbefore, hlead⟩ := ih
    by_cases hc : c = '\n'
    · subst hc
      exact ⟨before ++ lead ++ ['\n'], [], (append_nil _).symm, .inr getLast?_concat,
        not_mem_nil⟩
    · exact ⟨before, lead ++ [c], append_assoc .., hbefore, by simp [hlead, Ne.symm hc]⟩

/-- What stands behind a place is the rest of a line and what follows that line. -/
theorem exists_tail (rest : List Char) :
    ∃ tail after, rest = tail ++ after ∧ '\n' ∉ tail ∧ (after = [] ∨ after.head? = some '\n') := by
  induction rest with
  | nil => exact ⟨[], [], rfl, not_mem_nil, .inl rfl⟩
  | cons c rest ih =>
    by_cases hc : c = '\n'
    · subst hc
      exact ⟨[], '\n' :: rest, rfl, not_mem_nil, .inr rfl⟩
    · obtain ⟨tail, after, rfl, htail, hafter⟩ := ih
      exact ⟨c :: tail, after, rfl, by simp [htail, Ne.symm hc], hafter⟩

theorem lineAfter_lead (hlead : '\n' ∉ lead) :
    lineAfter (before ++ lead) = 1 + before.count '\n' := by
  rw [lineAfter_append (newline_not_mem_utf8Bytes hlead), lineAfter, count_utf8Bytes]

/-- The column behind a part of a line follows the bytes of the part. -/
theorem columnAfter_lead (hbefore : EndsLine before) (hlead : '\n' ∉ lead) :
    columnAfter (before ++ lead) = 1 + byteLength lead := by
  have hstart : columnAfter before = 1 := by
    rcases hbefore with rfl | hlast
    · rfl
    · obtain ⟨before, rfl⟩ := getLast?_eq_some_iff.1 hlast
      rw [columnAfter, utf8Bytes_append, reverse_append]
      rfl
  rw [columnAfter_append (newline_not_mem_utf8Bytes hlead), hstart]

/-! ### Where errors point -/

/-- An error points between a part of its source and the rest of it: at a token in its place, at the
end of the file, or at the character that it complains about. -/
inductive Error.PointsAt (source : String) (e : Error) : List Char → List Char → Prop
  | token {ts : List Token} {t : Token} {front after : List Char} :
    tokenize source = .ok ts → t ∈ ts → t.Scanned front after → e.location = t.location →
      PointsAt source e front (t.lexeme ++ after)
  | endOfFile {ts : List Token} {t : Token} :
    tokenize source = .ok ts → t ∈ ts → t.kind = .endOfFile → e.location = t.location →
      PointsAt source e source.toList []
  | character {c : Char} {front rest : List Char} :
    tokenize source = .error e → e.cause = .unrecognisedToken (String.ofList [c]) →
      Unmatched (c :: rest) → PointsAt source e front (c :: rest)

/-- An error stands behind a part of its source, at what it points at. -/
def Error.Placed (source : String) (e : Error) : Prop :=
  ∃ front rest, source.toList = front ++ rest ∧ e.location = locationAfter front ∧
    e.PointsAt source front rest

/-- An error has its place in a source: on one of its lines, in the column behind what leads up to
the place. The line that is shown under this number is the one that the error is on. -/
structure Error.Located (source : String) (e : Error) : Prop where
  line_pos : 1 ≤ e.location.line.toNat
  line_le : e.location.line.toNat ≤ 1 + source.toList.count '\n'
  col_pos : 1 ≤ e.location.col.toNat
  place : ∃ before lead tail after, IsLine source.toList before (lead ++ tail) after ∧
    e.location.line.toNat = 1 + before.count '\n' ∧ e.location.col.toNat = 1 + byteLength lead ∧
    e.PointsAt source (before ++ lead) (tail ++ after)
  shown : ∀ before line after, IsLine source.toList before line after →
    e.location.line.toNat = 1 + before.count '\n' →
    (ofSource source).sourceLine e.location.line = String.ofList (shownLine line after)

/-- What an error points at, exactly behind a part of the source, says where the error stands. -/
theorem Error.PointsAt.located (h : e.PointsAt source front rest)
    (hsplit : source.toList = front ++ rest) (hplace : e.location.Behind front) :
    e.Located source := by
  obtain ⟨before, lead, rfl, hbefore, hlead⟩ := exists_lead front
  obtain ⟨tail, after, rfl, htail, hafter⟩ := exists_tail rest
  have hnumber := hplace.line.trans (lineAfter_lead hlead)
  have hcol := hplace.col.trans (columnAfter_lead hbefore hlead)
  have hline : IsLine source.toList before (lead ++ tail) after :=
    ⟨by rw [hsplit, append_assoc, append_assoc, append_assoc], hbefore, hafter,
      by simp [hlead, htail]⟩
  refine ⟨?_, ?_, ?_, ⟨before, lead, tail, after, hline, hnumber, hcol, h⟩, ?_⟩
  · rw [hnumber]
    exact Nat.le_add_right 1 _
  · rw [hnumber, hline.split, append_assoc, count_append]
    exact Nat.add_le_add_left (Nat.le_add_right _ _) 1
  · rw [hcol]
    exact Nat.le_add_right 1 _
  · exact fun before' line after' hline' hnumber' => hline'.sourceLine_eq hnumber'

/-- The one place that is too far for a location, in a source of less than `2 ^ 32` bytes: the end
of the longest ones, if they are one line or nothing but newlines. There the column or the line has
started over. -/
structure Error.Overruns (source : String) (e : Error) : Prop where
  length : byteLength source.toList = 0xFFFFFFFF
  pointsAt : e.PointsAt source source.toList []
  place : source.toList.count '\n' = 0 ∧ e.location = ⟨1, 0⟩ ∨
    source.toList.count '\n' = 0xFFFFFFFF ∧ e.location = ⟨0, 1⟩

/-- In a source of less than `2 ^ 32` bytes, what an error points at says where it stands, or the
error is too far in. -/
theorem Error.PointsAt.located_or_overruns (h : e.PointsAt source front rest)
    (hsplit : source.toList = front ++ rest) (hplace : e.location = locationAfter front)
    (hshort : byteLength source.toList < 0x100000000) : e.Located source ∨ e.Overruns source := by
  by_cases hfits : lineAfter front < 0x100000000 ∧ columnAfter front < 0x100000000
  · exact .inl (h.located hsplit (hplace ▸ behind_of_lt hfits.1 hfits.2))
  · have hle := lineAfter_add_columnAfter_le front
    have hline : lineAfter front = 1 + front.count '\n' := by rw [lineAfter, count_utf8Bytes]
    have hcol : 1 ≤ columnAfter front := Nat.le_add_right 1 _
    have hrest : rest = [] := by
      by_contra hne
      have hpos := byteLength_pos hne
      rw [hsplit, byteLength_append] at hshort
      omega
    subst hrest
    rw [append_nil] at hsplit
    rw [← hsplit] at h hle hline hcol hplace hfits
    refine .inr ⟨by omega, h, ?_⟩
    by_cases hcount : source.toList.count '\n' = 0
    · have hlast : columnAfter source.toList = 0x100000000 := by omega
      refine .inl ⟨hcount, ?_⟩
      rw [hplace, locationAfter, hline, hcount, hlast]
      rfl
    · have hlast : columnAfter source.toList = 1 := by omega
      have hall : source.toList.count '\n' = 0xFFFFFFFF := by omega
      refine .inr ⟨hall, ?_⟩
      rw [hplace, locationAfter, hline, hall, hlast]
      rfl

variable {limit : Nat}

section

variable {ts : List Token}

theorem Error.placed_of_token (h : tokenize source = .ok ts) {t : Token} (ht : t ∈ ts)
    (hplace : e.location = t.location) : e.Placed source := by
  obtain ⟨body, htokens, hpieces⟩ := tokenize_eq_ok_iff.1 h
  have hmem := ht
  rw [htokens, mem_append, mem_singleton] at hmem
  rcases hmem with hbody | rfl
  · obtain ⟨middle, after, hsplit, hscanned⟩ := hpieces.mem hbody
    rw [nil_append, append_assoc] at hsplit
    refine ⟨_, _, hsplit, ?_, PointsAt.token h ht hscanned hplace⟩
    rw [hplace, Token.location, hscanned.2, spanOf_afterText]
  · refine ⟨source.toList, [], (append_nil _).symm, ?_, PointsAt.endOfFile h ht rfl hplace⟩
    rw [hplace, ← location_afterText]
    rfl

theorem Error.placed_of_tokenize (h : tokenize source = .error e) : e.Placed source := by
  obtain ⟨front, body, c, rest, hsplit, -, hunmatched, rfl⟩ := tokenize_eq_error_iff.1 h
  exact ⟨front, _, hsplit, location_afterText front, PointsAt.character h rfl hunmatched⟩

/-- A place that goes with itself is the place of a token. -/
theorem SameToken.exists_token {l l' : Location} (h : SameToken ts ts l l') :
    ∃ t ∈ ts, l = t.location := by
  obtain ⟨i, t, -, ht, -, hl, -⟩ := h
  exact ⟨t, mem_of_getElem? ht, hl⟩

/-- Errors with like errors are at tokens. -/
theorem exists_token_of_forall₂ {es es' : List Error}
    (h : List.Forall₂ (Error.Like (SameToken ts ts)) es es') :
    ∀ e ∈ es, ∃ t ∈ ts, e.location = t.location := by
  induction h with
  | nil => exact fun e he => absurd he not_mem_nil
  | cons he _ ih => exact forall_mem_cons.2 ⟨he.place.exists_token, ih⟩

/-- An error of the parser is at a token. -/
theorem exists_token_of_parse_error (h : tokenize source = .ok ts)
    (hparse : parseTokens ts limit = .error e) : ∃ t ∈ ts, e.location = t.location := by
  have hparses := parseTokens_sameToken h h (forall₂_same.2 fun _ _ => ⟨rfl, rfl⟩) limit
  rw [hparse] at hparses
  cases hparses with
  | cut hlt => exact absurd hlt (Nat.lt_irrefl _)
  | error he => exact he.place.exists_token

/-- Errors of the checker are at tokens: those that are reported and the one that stops it. -/
theorem exists_token_of_visit {s : Store} {root : NodeId}
    (h : tokenize source = .ok ts) (hparse : parseTokens ts limit = .ok (s, root))
    (diagnostics : Diagnostics) (options : CheckOptions) :
    (∃ es, ((visit root).after (.start s .empty diagnostics options)).diagnostics.errors =
        diagnostics.errors ++ es ∧ ∀ e ∈ es, ∃ t ∈ ts, e.location = t.location) ∧
      ∀ e c, visit root (.start s .empty diagnostics options) = .error e c →
        ∃ t ∈ ts, e.location = t.location := by
  -- the walk is compared with itself: what goes with a place of the tree is a token
  have hparses := parseTokens_sameToken h h (forall₂_same.2 fun _ _ => ⟨rfl, rfl⟩) limit
  rw [hparse] at hparses
  cases hparses with
  | ok hs =>
    obtain ⟨P, -, hprogram, -⟩ := parseTokens_layout hparse
    obtain ⟨p, htree⟩ := hprogram.subtree
    obtain ⟨m1, hafter, hends, hm1⟩ :=
      visit_like hs htree (rfl : options.limit = options.limit) diagnostics diagnostics
    obtain ⟨es, es', herrors, -, hlike⟩ := hm1.errors
    refine ⟨⟨es, by rw [hafter]; exact herrors, exists_token_of_forall₂ hlike⟩, fun e c hrun => ?_⟩
    rw [hrun] at hends
    cases hends with
    | error he => exact he.place.exists_token

end

/-! ### Checking keeps the lines -/

/-- Checking keeps the source lines that errors are shown with. -/
def keepsLines : Discipline where
  Holds c _ c' := c'.diagnostics.lines = c.diagnostics.lines
  refl _ := rfl
  trans h1 h2 := h2.trans h1
  fail h1 h2 := h2.trans h1
  report _ _ _ _ := rfl
  note _ _ := rfl
  declare _ _ _ _ _ _ _ := rfl
  scope h := h
  within h := h
  deeper h := h
  overstep _ _ := rfl

theorem lines_after_visit (root : NodeId) (c : Checker) :
    ((Check.visit root).after c).diagnostics.lines = c.diagnostics.lines := by
  have h := keepsLines.governs_visit root c
  unfold Discipline.Governs at h
  rw [Check.after]
  cases hrun : visit root c <;> rw [hrun] at h <;> exact h

/-- An error comes from a source: its text cannot be read there, or a token stands there. -/
def Error.ComesFrom (source : String) (e : Error) : Prop :=
  tokenize source = .error e ∨ ∃ ts, tokenize source = .ok ts ∧ ∃ t ∈ ts, e.location = t.location

theorem Error.ComesFrom.placed (h : e.ComesFrom source) : e.Placed source := by
  rcases h with h | ⟨ts, h, t, ht, hplace⟩
  · exact Error.placed_of_tokenize h
  · exact Error.placed_of_token h ht hplace

theorem Error.ComesFrom.located_or_overruns (h : e.ComesFrom source)
    (hshort : byteLength source.toList < 0x100000000) : e.Located source ∨ e.Overruns source := by
  obtain ⟨front, rest, hsplit, hplace, hpoints⟩ := h.placed
  exact hpoints.located_or_overruns hsplit hplace hshort

theorem comesFrom_of_parseSource (h : parseSource source limit = .error e) :
    e.ComesFrom source := by
  rw [parseSource] at h
  split at h
  next ts htokens => exact .inr ⟨ts, htokens, exists_token_of_parse_error htokens h⟩
  next e' htokens =>
    cases h
    exact .inl htokens

/-- The errors that checking a source adds, and the one that stops it, come from the source. -/
theorem checkSource_errors (source : String) (options : CheckOptions) (diagnostics : Diagnostics) :
    (checkSource source options diagnostics).diagnostics.lines = diagnostics.lines ∧
      ∃ es, (checkSource source options diagnostics).diagnostics.errors =
          diagnostics.errors ++ es ∧
        ∀ e, e ∈ es ∨ (checkSource source options diagnostics).outcome = .error e →
          e.ComesFrom source := by
  cases h : tokenize source with
  | error e =>
    rw [checkSource_of_tokenize_error h]
    refine ⟨rfl, [], (append_nil _).symm, ?_⟩
    rintro e' (he' | he')
    · exact absurd he' not_mem_nil
    · cases he'
      exact .inl h
  | ok ts =>
    cases hparse : parseTokens ts options.limit with
    | error e =>
      rw [checkSource_of_parse_error h hparse]
      refine ⟨rfl, [], (append_nil _).symm, ?_⟩
      rintro e' (he' | he')
      · exact absurd he' not_mem_nil
      · cases he'
        exact .inr ⟨ts, h, exists_token_of_parse_error h hparse⟩
    | ok tree =>
      obtain ⟨s, root⟩ := tree
      obtain ⟨⟨es, herrors, hreported⟩, hstopped⟩ :=
        exists_token_of_visit h hparse diagnostics options
      have hlines := lines_after_visit root (.start s .empty diagnostics options)
      cases hrun : visit root (.start s .empty diagnostics options) with
      | error e c =>
        rw [after_of_error hrun] at herrors hlines
        rw [checkSource_of_visit_error h hparse hrun]
        refine ⟨hlines, es, herrors, ?_⟩
        rintro e' (he' | he')
        · exact .inr ⟨ts, h, hreported e' he'⟩
        · cases he'
          exact .inr ⟨ts, h, hstopped e c hrun⟩
      | ok n c =>
        rw [after_of_ok hrun] at herrors hlines
        rw [checkSource_of_visit_ok h hparse hrun]
        refine ⟨hlines, es, herrors, ?_⟩
        rintro e' (he' | he')
        · exact .inr ⟨ts, h, hreported e' he'⟩
        · cases he'

end PLang
