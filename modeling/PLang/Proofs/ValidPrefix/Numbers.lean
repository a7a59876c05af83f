import PLang.Proofs.Grammar.Words

/-!
# When numbers are read

The numbers of a program are read where they stand, but for the bounds of counting loops: these are
read behind their loop. So the number at which parsing stops need not be the first one that cannot
be read. `Stops` says which one it is. The header of a loop is recognized by the kinds of its tokens
alone.
-/

namespace PLang

open Grammar Grammar.Phrase List

variable {k : Nat} {t : Token} {us vs : List Token}

/-- The kinds that a counting loop starts with, up to its body. -/
def loopHeader : List TokenKind :=
  [.forWord, .identifier, .assignment, .integer, .toWord, .integer, .doWord]

/-- The body of a loop and its end. -/
def loopTail : Phrase := sequence [name .block, token .endWord, token .doWord]

/-- Whether some kinds end within the header of a counting loop. -/
def EndsInHeader (ks : List TokenKind) : Prop :=
  ∃ part more, part ≠ [] ∧ more ≠ [] ∧ part ++ more = loopHeader ∧ part <:+ ks

/-- No header goes across the end of kinds that do not end within one. -/
theorem suffix_of_not_endsInHeader {part more ks ms : List TokenKind} (hks : ¬EndsInHeader ks)
    (hmore : more ≠ []) (heq : part ++ more = loopHeader) (h : part <:+ ks ++ ms) :
    part <:+ ms := by
  obtain ⟨u, hu⟩ := h
  rcases append_eq_append_iff.1 hu with ⟨as, rfl, rfl⟩ | ⟨cs, rfl, rfl⟩
  · by_cases has : as = []
    · subst has
      exact suffix_rfl
    · refine absurd ⟨as, ms ++ more, has, ?_, ?_, ⟨u, rfl⟩⟩ hks
      · exact append_ne_nil_of_right_ne_nil _ hmore
      · rwa [← append_assoc]
  · exact ⟨cs, rfl⟩

theorem not_endsInHeader_loopHeader : ¬EndsInHeader loopHeader := by
  rintro ⟨part, more, hpart, hmore, heq, h⟩
  have hall : ∀ k < 7, 0 < k → ¬loopHeader.take k <:+ loopHeader := by decide
  refine hall part.length ?_ (length_pos_iff.2 hpart) ?_
  · have hlength := congrArg length heq
    rw [length_append] at hlength
    have := length_pos_iff.2 hmore
    exact Nat.lt_of_lt_of_eq (by omega) hlength
  · rwa [← heq, take_left, heq]

/-- The numbers of a header are its bounds. -/
theorem integer_of_mem_loopHeader (h : t.kind ∈ loopHeader) (ht : ¬Readable t) :
    t.kind = .integer := by
  have hall : ∀ k ∈ loopHeader, k = .integer ∨ numberKinds.contains k = false := by decide
  exact (hall _ h).resolve_right fun hkind => ht (.of_contains hkind)

/-- Whether the numbers of some tokens have been read once these are taken. -/
structure Settled (us : List Token) : Prop where
  readable : ∀ t ∈ us, Readable t
  closed : ¬EndsInHeader (us.map Token.kind)

theorem Settled.nil : Settled [] := by
  refine ⟨fun _ h => absurd h not_mem_nil, ?_⟩
  rintro ⟨part, more, hpart, -, -, h⟩
  exact hpart (suffix_nil.1 h)

theorem Settled.single (ht : Readable t) (hkind : t.kind ≠ .forWord) : Settled [t] := by
  refine ⟨fun s hs => mem_singleton.1 hs ▸ ht, ?_⟩
  rintro ⟨part, more, hpart, -, heq, h⟩
  rcases suffix_cons_iff.1 h with rfl | h
  · exact hkind (cons.inj heq).1
  · exact hpart (suffix_nil.1 h)

/-- Whether tokens of a kind need no care: they are no numbers, start no counting loop and do not
end the file. -/
def TokenKind.isPlain (kind : TokenKind) : Bool :=
  !(TokenKind.endOfFile :: .forWord :: numberKinds).contains kind

theorem TokenKind.ne_of_isPlain {kind other : TokenKind} (h : kind.isPlain = true)
    (hother : other.isPlain = false) : kind ≠ other := by
  rintro rfl
  rw [h] at hother
  cases hother

theorem Settled.plain (h : t.kind.isPlain = true) : Settled [t] := by
  have hkind : t.kind ∉ TokenKind.endOfFile :: .forWord :: numberKinds := by
    simpa [TokenKind.isPlain] using h
  refine .single (.of_contains (Bool.eq_false_iff.2 fun hmem => hkind ?_)) fun heq => hkind ?_
  · exact .tail _ (.tail _ (contains_iff_mem.1 hmem))
  · rw [heq]
    decide

theorem Settled.append (hu : Settled us) (hv : Settled vs) : Settled (us ++ vs) := by
  refine ⟨forall_mem_append.2 ⟨hu.readable, hv.readable⟩, ?_⟩
  rintro ⟨part, more, hpart, hmore, heq, h⟩
  rw [map_append] at h
  exact hv.closed ⟨part, more, hpart, hmore, heq, suffix_of_not_endsInHeader hu.closed hmore heq h⟩

/-- Whether the token behind some others is a bound of a counting loop, in which place of the
header. -/
def BoundAt (k : Nat) (us : List Token) : Prop :=
  loopHeader[k]? = some .integer ∧ loopHeader.take k <:+ us.map Token.kind

/-- Only two tokens of a header are bounds. -/
theorem eq_of_bound (h : loopHeader[k]? = some .integer) : k = 3 ∨ k = 5 := by
  have hall : ∀ k < 7, loopHeader[k]? = some .integer → k = 3 ∨ k = 5 := by decide
  exact hall k (List.getElem?_eq_some_iff.1 h).1 h

theorem BoundAt.of_append (h : BoundAt k (us ++ vs)) (hus : ¬EndsInHeader (us.map Token.kind)) :
    BoundAt k vs := by
  obtain ⟨hk, hsuffix⟩ := h
  rw [map_append] at hsuffix
  refine ⟨hk, suffix_of_not_endsInHeader hus ?_ (take_append_drop k loopHeader) hsuffix⟩
  rcases eq_of_bound hk with rfl | rfl <;> exact cons_ne_nil _ _

theorem BoundAt.append (h : BoundAt k vs) : BoundAt k (us ++ vs) := by
  refine ⟨h.1, ?_⟩
  rw [map_append]
  exact h.2.trans (suffix_append _ _)

/-- Whether the number between some tokens is a bound of a counting loop that is not finished where
these tokens end: a token of a kind can come next in its body. -/
def Awaits (us vs : List Token) (kind : TokenKind) : Prop :=
  ∃ k head inner w, BoundAt k us ∧ vs = head ++ inner ∧
    head.map Token.kind = loopHeader.drop (k + 1) ∧
    Derives loopTail (inner.map Token.kind ++ kind :: w)

/-- A header can be read as far as its bounds can. -/
theorem readable_of_bounds {header : List Token} (hheader : header.map Token.kind = loopHeader)
    {j : Nat} (h : ∀ k t, k < j → loopHeader[k]? = some .integer → header[k]? =
      some t → Readable t) :
    ∀ s ∈ header.take j, Readable s := by
  intro s hs
  obtain ⟨k, hk⟩ := mem_iff_getElem?.1 hs
  rw [getElem?_take] at hk
  split at hk
  case isFalse => cases hk
  case isTrue hlt =>
    have hkind : loopHeader[k]? = some s.kind := by rw [← hheader, getElem?_map, hk]; rfl
    by_cases hread : Readable s
    · exact hread
    · rw [integer_of_mem_loopHeader (mem_of_getElem? hkind) hread] at hkind
      exact h k s hlt hkind hk

/-- Whether a number that cannot be read is the one at which parsing stops, with the tokens before
it and behind it. The others before it are bounds of loops that it stands in. If it is a bound
itself, the numbers in its loop can be read. -/
structure Stops (before : List Token) (t : Token) (behind : List Token) : Prop where
  unreadable : ¬Readable t
  earlier : ∀ us s vs, before = us ++ s :: vs → ¬Readable s → Awaits us vs t.kind
  later : ∀ k, BoundAt k before → ∃ head body rest, behind = head ++ (body ++ rest) ∧
    head.map Token.kind = loopHeader.drop (k + 1) ∧ loopTail.Covers body

namespace Stops

variable {us before behind : List Token} {t : Token}

/-- A number that stands first and is no bound. -/
theorem first (ht : ¬Readable t) : Stops [] t behind := by
  refine ⟨ht, fun us s vs heq _ => ?_, fun k hk => ?_⟩
  · cases us <;> cases heq
  · have hnil := suffix_nil.1 hk.2
    rcases eq_of_bound hk.1 with rfl | rfl <;> cases hnil

/-- More tokens may stand before the others, if their numbers can be read or are bounds. -/
theorem extend (h : Stops before t behind) (hus : ¬EndsInHeader (us.map Token.kind))
    (hearlier : ∀ u s v, us = u ++ s :: v → ¬Readable s → Awaits u (v ++ before) t.kind) :
    Stops (us ++ before) t behind := by
  have hbehind : ∀ as s v, before = as ++ s :: v → ¬Readable s → Awaits (us ++ as) v t.kind := by
    intro as s v heq hs
    obtain ⟨k, head, inner, w, hk, rest⟩ := h.earlier as s v heq hs
    exact ⟨k, head, inner, w, hk.append, rest⟩
  refine ⟨h.unreadable, fun u s v heq hs => ?_, fun k hk => h.later k (hk.of_append hus)⟩
  rcases append_eq_append_iff.1 heq with ⟨as, rfl, hbefore⟩ | ⟨cs, rfl, hcs⟩
  · exact hbehind as s v hbefore hs
  · cases cs with
    | nil => simpa using hbehind [] s v hcs.symm hs
    | cons r cs =>
      obtain ⟨rfl, rfl⟩ := cons.inj hcs
      exact hearlier u s cs rfl hs

/-- Tokens whose numbers have been read may stand before the others. -/
theorem append (h : Stops before t behind) (hus : Settled us) : Stops (us ++ before) t behind :=
  h.extend hus.closed fun _ s _ heq hs => absurd (hus.readable s (heq ▸ by simp)) hs

section Loop

variable {header body rest : List Token} {k : Nat} {w : List TokenKind}
  (hheader : header.map Token.kind = loopHeader)

include hheader

/-- In the body of a loop, bounds may have been left unread. -/
theorem inLoop (h : Stops before t behind)
    (hword : Derives loopTail (before.map Token.kind ++ t.kind :: w)) :
    Stops (header ++ before) t behind := by
  refine h.extend (hheader ▸ not_endsInHeader_loopHeader) fun u s v heq hs => ?_
  have hkind : loopHeader[u.length]? = some s.kind := by
    rw [← hheader, heq]
    simp
  refine ⟨u.length, v, before, w, ⟨?_, ?_⟩, rfl, ?_, hword⟩
  · rw [hkind, integer_of_mem_loopHeader (mem_of_getElem? hkind) hs]
  · simp [← hheader, heq]
  · rw [← hheader, heq, ← map_drop]
    simp

/-- A bound is read behind its loop. -/
theorem bound (hk : loopHeader[k]? = some .integer) (ht : header[k]? = some t)
    (hunread : ¬Readable t) (hfirst : ∀ s ∈ header.take k, Readable s)
    (hbody : loopTail.Covers body) :
    Stops (header.take k) t (header.drop (k + 1) ++ (body ++ rest)) := by
  refine ⟨hunread, fun us s vs heq hs => ?_, fun j hj => ⟨_, body, rest, rfl, ?_, hbody⟩⟩
  · exact absurd (hfirst s (heq ▸ by simp)) hs
  · obtain ⟨hj, hsuffix⟩ := hj
    rw [map_take, hheader] at hsuffix
    obtain rfl : k = j := by
      rcases eq_of_bound hk with rfl | rfl <;> rcases eq_of_bound hj with rfl | rfl
      all_goals first | rfl | exact absurd hsuffix (by decide)
    rw [map_drop, hheader]

end Loop

end Stops

end PLang
