import PLang.Proofs.Grammar.Rules

/-!
# Lookahead

Which tokens the phrases of the grammar start with, and when a reading finds what a phrase covers:
the token behind it has to be one that can follow. One lemma for every way to combine readings says
how the tokens that can follow are passed on.
-/

namespace PLang

open Syntax Grammar Grammar.Phrase

variable {p : TokenKind → Bool} {ts : List Token}

namespace Grammar

/-! ### First tokens -/

/-- Whether what a phrase covers starts with a token of certain kinds. -/
def Phrase.Starts (r : Phrase) (kinds : List TokenKind) : Prop :=
  ∀ ts, r.Covers ts → ∃ t us, ts = t :: us ∧ t.kind ∈ kinds

namespace Phrase.Starts

variable {r : Phrase} {rs : List Phrase} {kinds : List TokenKind}

theorem oneOf (kinds : List TokenKind) : (oneOf kinds).Starts kinds := by
  intro ts h
  obtain ⟨t, rfl, hkind, -⟩ := covers_oneOf.1 h
  exact ⟨t, [], rfl, hkind⟩

theorem token (kind : TokenKind) : (token kind).Starts [kind] := .oneOf [kind]

theorem name {x : Name} (h : (rule x).Starts kinds) : (name x).Starts kinds :=
  fun ts hts => h ts (covers_name.1 hts)

theorem sequence (h : r.Starts kinds) : (sequence (r :: rs)).Starts kinds := by
  intro ts hts
  obtain ⟨us, vs, rfl, hu, -⟩ := covers_cons.1 hts
  obtain ⟨t, us, rfl, hkind⟩ := h us hu
  exact ⟨t, us ++ vs, rfl, hkind⟩

theorem choice (h : ∀ r ∈ rs, r.Starts kinds) : (choice rs).Starts kinds := by
  intro ts hts
  obtain ⟨r, hr, hcovers⟩ := covers_choice.1 hts
  exact h r hr ts hcovers

theorem mono {kinds' : List TokenKind} (h : r.Starts kinds) (hsub : ∀ k ∈ kinds, k ∈ kinds') :
    r.Starts kinds' := by
  intro ts hts
  obtain ⟨t, us, heq, hkind⟩ := h ts hts
  exact ⟨t, us, heq, hsub t.kind hkind⟩

/-- A sequence that starts with one token. -/
theorem token_sequence (kind : TokenKind) :
    (.sequence (.token kind :: rs) : Phrase).Starts [kind] :=
  .sequence (.token kind)

end Phrase.Starts

/-- The kinds that an expression can start with. -/
def operandKinds : List TokenKind := .identifier :: .openParen :: .dash :: .notWord :: literalKinds

/-- The kinds that a statement can start with. -/
def statementKinds : List TokenKind :=
  [.beginWord, .identifier, .printWord, .readWord, .ifWord, .whileWord, .forWord, .returnWord]

theorem starts_names : (name .names).Starts [.identifier] := .name (.sequence (.token _))

theorem starts_type : (name .type).Starts (.arrayWord :: scalarKinds) := by
  intro ts h
  obtain ⟨us, vs, rfl, hu, hv⟩ := covers_cons.1 (covers_name.1 h)
  have hscalar : (sequence [oneOf scalarKinds]).Starts scalarKinds := .sequence (.oneOf _)
  refine hu.many_induction (motive := fun us => ∃ t ws, us ++ vs = t :: ws ∧
    t.kind ∈ .arrayWord :: scalarKinds) ?_ ?_
  · obtain ⟨t, ws, rfl, hkind⟩ := hscalar vs hv
    exact ⟨t, ws, rfl, .tail _ hkind⟩
  · intro us us' hus _ _
    obtain ⟨t, us, rfl, hkind⟩ := Starts.token_sequence .arrayWord us hus
    exact ⟨t, us ++ us' ++ vs, rfl, List.mem_cons.2 (.inl (List.mem_singleton.1 hkind))⟩

theorem starts_reference : (name .reference).Starts [.identifier] := .name (.token_sequence _)

theorem starts_call : (name .call).Starts [.identifier] := .name (.token_sequence _)

theorem starts_block : (name .block).Starts [.beginWord] := .name (.token_sequence _)

theorem starts_declaration : (name .declaration).Starts [.varWord] := .name (.token_sequence _)

theorem starts_function : (name .function).Starts [.identifier] := .name (.token_sequence _)

theorem starts_statement : (name .statement).Starts statementKinds := by
  refine .name (.choice fun r hr => ?_)
  simp only [List.mem_cons, List.not_mem_nil, or_false] at hr
  rcases hr with rfl | rfl | rfl | rfl | rfl | rfl | rfl | rfl | rfl
  · exact starts_block.mono (by decide)
  · exact (Starts.sequence starts_reference).mono (by decide)
  iterate 6 exact (Starts.token_sequence _).mono (by decide)
  · exact (Starts.sequence starts_call).mono (by decide)

/-! ### Flat expressions -/

/-- An operator and what comes behind it, if anything does. -/
def operatorTail : Phrase := optional (sequence [oneOf binaryKinds, name .expression])

theorem covers_operatorTail : operatorTail.Covers ts ↔
    ts = [] ∨ ∃ t us, ts = t :: us ∧ t.kind ∈ binaryKinds ∧ (name .expression).Covers us := by
  refine covers_optional.trans (or_congr_right ?_)
  constructor
  · intro h
    obtain ⟨_, us, rfl, hoperator, hu⟩ := covers_cons.1 h
    obtain ⟨t, rfl, hkind, -⟩ := covers_oneOf.1 hoperator
    exact ⟨t, us, rfl, hkind, covers_last.1 hu⟩
  · rintro ⟨t, us, rfl, hkind, hu⟩
    exact (covers_operator hkind).append (covers_last.2 hu)

/-- The forms of a flat expression. -/
theorem covers_expression (h : (name .expression).Covers ts) :
    (∃ us t vs, ts = us ++ t :: vs ∧ (name .expression).Covers us ∧ t.kind ∈ binaryKinds ∧
      (name .expression).Covers vs) ∨
    (∃ (o : UnaryOperator) (t : Token) (us : List Token), ts = t :: us ∧ t.kind = o.kind ∧
      (name .expression).Covers us) ∨ atom.Covers ts := by
  have hunary : ∀ o : UnaryOperator, (sequence [token o.kind, name .expression]).Covers ts →
      ∃ (o : UnaryOperator) (t : Token) (us : List Token), ts = t :: us ∧ t.kind = o.kind ∧
        (name .expression).Covers us := by
    intro o hts
    obtain ⟨_, us, rfl, hoperator, hu⟩ := covers_cons.1 hts
    obtain ⟨t, rfl, hkind, -⟩ := covers_token.1 hoperator
    exact ⟨o, t, us, rfl, hkind, covers_last.1 hu⟩
  obtain ⟨r, hr, hts⟩ := covers_choice.1 (covers_name.1 h)
  simp only [List.mem_cons, List.not_mem_nil, or_false] at hr
  rcases hr with rfl | rfl | rfl | rfl
  · obtain ⟨us, _, rfl, hu, hrest⟩ := covers_cons.1 hts
    obtain ⟨_, vs, rfl, hoperator, hv⟩ := covers_cons.1 hrest
    obtain ⟨t, rfl, hkind, -⟩ := covers_oneOf.1 hoperator
    exact .inl ⟨us, t, vs, rfl, hu, hkind, covers_last.1 hv⟩
  · exact .inr (.inl (hunary .negate hts))
  · exact .inr (.inl (hunary .not hts))
  · exact .inr (.inr hts)

/-- A flat expression starts with a prefix operator and goes on as an expression, or it starts with
an atom and goes on with an operator, if at all. -/
theorem expression_head (h : (name .expression).Covers ts) :
    (∃ (o : UnaryOperator) (t : Token) (us : List Token), ts = t :: us ∧ t.kind = o.kind ∧
      (name .expression).Covers us) ∨
    ∃ us vs, ts = us ++ vs ∧ atom.Covers us ∧ operatorTail.Covers vs := by
  -- the left operand of an operator is shorter than the whole
  induction hn : ts.length using Nat.strongRecOn generalizing ts with
  | ind n ih =>
    rcases covers_expression h with ⟨us, t, vs, rfl, hu, ht, hv⟩ | hunary | hatom
    · have hlt : us.length < n := by
        rw [← hn, List.length_append, List.length_cons]
        omega
      rcases ih us.length hlt hu rfl with ⟨o, t', us', rfl, hkind, hu'⟩ |
        ⟨us1, us2, rfl, hatom, htail⟩
      · exact .inl ⟨o, t', us' ++ t :: vs, rfl, hkind, covers_binary hu' ht hv⟩
      · refine .inr ⟨us1, us2 ++ t :: vs, List.append_assoc us1 us2 _, hatom, ?_⟩
        rcases covers_operatorTail.1 htail with rfl | ⟨t', us', rfl, ht', hu'⟩
        · exact covers_operatorTail.2 (.inr ⟨t, vs, rfl, ht, hv⟩)
        · exact covers_operatorTail.2 (.inr ⟨t', us' ++ t :: vs, rfl, ht', covers_binary hu' ht hv⟩)
    · exact .inl hunary
    · exact .inr ⟨ts, [], (List.append_nil ts).symm, hatom, covers_operatorTail.2 (.inl rfl)⟩

theorem starts_atom : atom.Starts operandKinds := by
  refine .choice fun r hr => ?_
  simp only [List.mem_cons, List.not_mem_nil, or_false] at hr
  rcases hr with rfl | rfl | rfl | rfl
  · exact (Starts.token_sequence _).mono (by decide)
  · exact (Starts.oneOf _).mono (by decide)
  · exact starts_reference.mono (by decide)
  · exact starts_call.mono (by decide)

theorem starts_expression : (name .expression).Starts operandKinds := by
  intro ts h
  rcases expression_head h with ⟨o, t, us, rfl, hkind, -⟩ | ⟨us, vs, rfl, hatom, -⟩
  · refine ⟨t, us, rfl, ?_⟩
    rw [hkind]
    cases o <;> decide
  · obtain ⟨t, us, rfl, hkind⟩ := starts_atom us hatom
    exact ⟨t, us ++ vs, rfl, hkind⟩

end Grammar

/-! ### Finding what is covered -/

namespace Reading

/-- Whether a reading finds what a phrase covers, up to a length, if it is followed by a token of
certain kinds. -/
def Finds {α : Type} (R : Reading α) (m : Nat) (r : Phrase) (follow : TokenKind → Bool) : Prop :=
  ∀ front rest, front.length ≤ m → r.Covers front → follow (headKind rest) = true →
    ∃ a, R (front ++ rest) a rest

/-- Whether what some phrases cover starts with a token of certain kinds, or is empty and followed
by one. -/
def Leads (rs : List Phrase) (follow lead : TokenKind → Bool) : Prop :=
  ∀ ts rest, (sequence rs).Covers ts → follow (headKind rest) = true →
    lead (headKind (ts ++ rest)) = true

/-- No restriction on the token that follows. -/
def anything : TokenKind → Bool := fun _ => true

/-- The tokens that can follow a name. -/
def endsName (k : TokenKind) : Bool := k != .openBracket && k != .openParen

/-- The tokens that can follow a whole expression. -/
def endsExpression (k : TokenKind) : Bool := endsName k && (BinaryOperator.ofKind? k).isNone

theorem endsName_of_mem {k : TokenKind} (h : k ∈ binaryKinds) : endsName k = true := by
  revert k
  decide

variable {kind : TokenKind}

section Leads

variable {r : Phrase} {rs : List Phrase} {follow lead : TokenKind → Bool} {kinds : List TokenKind}

theorem Leads.nil (h : ∀ k, follow k = true → lead k = true) : Leads [] follow lead := by
  intro ts rest hts hrest
  obtain rfl := covers_nil.1 hts
  exact h _ hrest

theorem Leads.starts (hr : r.Starts kinds) (h : ∀ k ∈ kinds, lead k = true) :
    Leads (r :: rs) follow lead := by
  intro ts rest hts _
  obtain ⟨t, us, rfl, hkind⟩ := Starts.sequence hr ts hts
  exact h t.kind hkind

theorem Leads.token (h : lead kind = true) :
    Leads (.token kind :: rs) follow lead :=
  .starts (.token kind) (by simpa using h)

theorem Leads.many (hr : r.Starts kinds) (h : ∀ k ∈ kinds, lead k = true)
    (hrs : Leads rs follow lead) : Leads (.many r :: rs) follow lead := by
  intro ts rest hts hrest
  obtain ⟨us, vs, rfl, hu, hv⟩ := covers_cons.1 hts
  refine hu.many_induction (motive := fun us => lead (headKind (us ++ vs ++ rest)) = true) ?_ ?_
  · exact hrs vs rest hv hrest
  · intro us us' hus _ _
    obtain ⟨t, us, rfl, hkind⟩ := hr us hus
    exact h t.kind hkind

end Leads

namespace Finds

variable {α β : Type} {m : Nat} {R T : Reading α} {S : α → Reading β} {r : Phrase}
  {rs : List Phrase} {follow lead : TokenKind → Bool} {kinds : List TokenKind}

theorem mono {l : Nat} (hR : R.Finds m r follow) (h : l ≤ m) : R.Finds l r follow :=
  fun front rest hlength hfront hrest => hR front rest (Nat.le_trans hlength h) hfront hrest

theorem follows (hR : R.Finds m r lead) (h : ∀ k, follow k = true → lead k = true) :
    R.Finds m r follow :=
  fun front rest hlength hfront hrest => hR front rest hlength hfront (h _ hrest)

theorem pure {a : α} : (Pure.pure a : Reading α).Finds m (sequence []) follow := by
  intro front rest _ hfront _
  obtain rfl := covers_nil.1 hfront
  exact ⟨a, rfl, rfl⟩

theorem bind (hR : R.Finds m r lead) (hlead : Leads rs follow lead)
    (hS : ∀ a, (S a).Finds m (sequence rs) follow) :
    (R >>= S).Finds m (sequence (r :: rs)) follow := by
  intro front rest hlength hfront hrest
  obtain ⟨us, vs, rfl, hu, hv⟩ := covers_cons.1 hfront
  rw [List.length_append] at hlength
  obtain ⟨a, ha⟩ := hR us (vs ++ rest) (by omega) hu (hlead vs rest hv hrest)
  obtain ⟨b, hb⟩ := hS a vs rest (by omega) hv hrest
  refine ⟨b, a, vs ++ rest, ?_, hb⟩
  rwa [List.append_assoc]

/-- A token uses up one nesting level. -/
theorem token_bind {S : Token → Reading β}
    (hS : ∀ t, t.kind = kind → Readable t → (S t).Finds m (sequence rs) follow) :
    (Reading.token kind >>= S).Finds (m + 1) (sequence (.token kind :: rs)) follow := by
  intro front rest hlength hfront hrest
  obtain ⟨_, vs, rfl, ht, hv⟩ := covers_cons.1 hfront
  obtain ⟨t, rfl, hkind, hread⟩ := covers_token.1 ht
  rw [List.length_append, List.length_singleton] at hlength
  obtain ⟨b, hb⟩ := hS t hkind hread vs rest (by omega) hv hrest
  exact ⟨b, t, vs ++ rest, ⟨rfl, hkind⟩, hb⟩

/-- A token whose nesting level is not needed. -/
theorem skip {S : Token → Reading β}
    (hS : ∀ t, t.kind = kind → Readable t → (S t).Finds m (sequence rs) follow) :
    (Reading.token kind >>= S).Finds m (sequence (.token kind :: rs)) follow :=
  (token_bind hS).mono (Nat.le_succ m)

/-- An integer token whose word is asked for. -/
theorem integer_bind {S : Token → Int → Reading β}
    (hS : ∀ t n, (S t n).Finds m (sequence rs) follow) :
    (do let t ← Reading.token .integer; let n ← value (wordOfText? t.value); S t n).Finds m
      (sequence (.token .integer :: rs)) follow := by
  refine .skip fun t hkind hread front rest hlength hfront hrest => ?_
  obtain ⟨n, hn⟩ := Option.isSome_iff_exists.1 (hread.1 hkind)
  obtain ⟨b, hb⟩ := hS t n front rest hlength hfront hrest
  exact ⟨b, n, front ++ rest, ⟨hn, rfl⟩, hb⟩

theorem token : (token kind).Finds m (.token kind) follow := by
  intro front rest _ hfront _
  obtain ⟨t, rfl, hkind, -⟩ := covers_token.1 hfront
  exact ⟨t, rfl, hkind⟩

theorem choice (h : ∀ r ∈ rs, R.Finds m r follow) : R.Finds m (choice rs) follow := by
  intro front rest hlength hfront hrest
  obtain ⟨r, hr, hcovers⟩ := covers_choice.1 hfront
  exact h r hr front rest hlength hcovers hrest

theorem map {f : α → β} (hR : R.Finds m r follow) :
    (do let a ← R; return f a : Reading β).Finds m r follow := by
  intro front rest hlength hfront hrest
  obtain ⟨a, ha⟩ := hR front rest hlength hfront hrest
  exact ⟨f a, a, rest, ha, rfl, rfl⟩

theorem last (hR : R.Finds m r follow) : R.Finds m (sequence [r]) follow :=
  fun front rest hlength hfront hrest => hR front rest hlength (covers_last.1 hfront) hrest

theorem name {x : Name} (hR : R.Finds m (rule x) follow) : R.Finds m (name x) follow :=
  fun front rest hlength hfront hrest => hR front rest hlength (covers_name.1 hfront) hrest

theorem one {f : Token → Option α} (h : ∀ t, (f t).isSome ↔ t.kind ∈ kinds ∧ Readable t) :
    (one f).Finds m (oneOf kinds) follow := by
  intro front rest _ hfront _
  obtain ⟨t, rfl, ht⟩ := covers_oneOf.1 hfront
  obtain ⟨a, ha⟩ := Option.isSome_iff_exists.1 ((h t).2 ht)
  exact ⟨a, t, rfl, ha⟩

theorem many {more : TokenKind → Bool} (hR : R.Finds m r lead) (hr : r.Starts kinds)
    (hkinds : ∀ k ∈ kinds, more k = true ∧ lead k = true)
    (hfollow : ∀ k, follow k = true → more k = false ∧ lead k = true) :
    (Many more R).Finds m (many r) follow := by
  intro front rest hlength hfront hrest
  have hleads : Leads [.many r] follow lead :=
    .many hr (fun k hk => (hkinds k hk).2) (.nil fun k hk => (hfollow k hk).2)
  refine hfront.many_induction (motive := fun front => front.length ≤ m →
    ∃ as, Many more R (front ++ rest) as rest) ?_ ?_ hlength
  · intro _
    exact ⟨[], .stop (hfollow _ hrest).1⟩
  · intro us vs hu hv ih hlength
    rw [List.length_append] at hlength
    obtain ⟨a, ha⟩ := hR us (vs ++ rest) (by omega) hu (hleads vs rest (covers_last.2 hv) hrest)
    obtain ⟨as, has⟩ := ih (by omega)
    obtain ⟨t, us, rfl, hkind⟩ := hr us hu
    rw [← List.append_assoc] at ha
    exact ⟨a :: as, .next (hkinds t.kind hkind).1 ha has⟩

theorem separated {separator : TokenKind} (hR : R.Finds m r lead) (hlead : lead separator = true)
    (hfollow : ∀ k, follow k = true → (k == separator) = false ∧ lead k = true) :
    (separated separator R).Finds m (.separated separator r) follow := by
  have hnext : (do let _ ← Reading.token separator; R : Reading α).Finds m
      (sequence [.token separator, r]) lead := .skip fun _ _ _ => hR.last
  have hstart : (sequence [.token separator, r]).Starts [separator] := .token_sequence _
  have hkinds : ∀ k ∈ [separator], (k == separator) = true ∧ lead k = true := by simpa using hlead
  refine .bind hR ?_ fun _ => .bind (.many hnext hstart hkinds hfollow) (.nil fun _ h => h)
    fun _ => .pure
  exact .many hstart (by simpa using hlead) (.nil fun k hk => (hfollow k hk).2)

theorem choose_left (hR : R.Finds m r follow) (hr : r.Starts kinds)
    (hkinds : ∀ k ∈ kinds, p k = true) : (choose p R T).Finds m r follow := by
  intro front rest hlength hfront hrest
  obtain ⟨a, ha⟩ := hR front rest hlength hfront hrest
  obtain ⟨t, us, rfl, hkind⟩ := hr front hfront
  refine ⟨a, ?_⟩
  rw [choose, List.cons_append, headKind_cons, if_pos (hkinds t.kind hkind)]
  exact ha

theorem choose_right (hT : T.Finds m r follow) (hr : r.Starts kinds)
    (hkinds : ∀ k ∈ kinds, p k = false) : (choose p R T).Finds m r follow := by
  intro front rest hlength hfront hrest
  obtain ⟨a, ha⟩ := hT front rest hlength hfront hrest
  obtain ⟨t, us, rfl, hkind⟩ := hr front hfront
  refine ⟨a, ?_⟩
  rw [choose, List.cons_append, headKind_cons, if_neg (by simp [hkinds t.kind hkind])]
  exact ha

/-- An optional part that its first token announces. -/
theorem optional_left {a : α} (hR : R.Finds m r follow) (hr : r.Starts kinds)
    (hkinds : ∀ k ∈ kinds, p k = true) (hfollow : ∀ k, follow k = true → p k = false) :
    (choose p R (Pure.pure a)).Finds m (optional r) follow := by
  intro front rest hlength hfront hrest
  rcases covers_optional.1 hfront with rfl | hfront
  · refine ⟨a, ?_⟩
    rw [choose, List.nil_append, if_neg (by simp [hfollow _ hrest])]
    exact ⟨rfl, rfl⟩
  · exact choose_left hR hr hkinds front rest hlength hfront hrest

/-- An optional part that is there unless the token behind it comes first. -/
theorem optional_right {a : α} (hT : T.Finds m r follow) (hr : r.Starts kinds)
    (hkinds : ∀ k ∈ kinds, p k = false) (hfollow : ∀ k, follow k = true → p k = true) :
    (choose p (Pure.pure a) T).Finds m (optional r) follow := by
  intro front rest hlength hfront hrest
  rcases covers_optional.1 hfront with rfl | hfront
  · refine ⟨a, ?_⟩
    rw [choose, List.nil_append, if_pos (hfollow _ hrest)]
    exact ⟨rfl, rfl⟩
  · exact choose_right hT hr hkinds front rest hlength hfront hrest

/-- A reading that goes on as another one, by the first token, finds what the other one finds. -/
theorem dispatch (hR : R.Finds m r follow) (hr : r.Starts kinds)
    (h : ∀ ts, headKind ts ∈ kinds → T ts = R ts) : T.Finds m r follow := by
  intro front rest hlength hfront hrest
  obtain ⟨a, ha⟩ := hR front rest hlength hfront hrest
  obtain ⟨t, us, rfl, hkind⟩ := hr front hfront
  refine ⟨a, ?_⟩
  rw [h (t :: us ++ rest) hkind]
  exact ha

end Finds

end Reading

end PLang
