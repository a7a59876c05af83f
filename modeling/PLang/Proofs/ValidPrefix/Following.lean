import PLang.Proofs.Grammar.Lookahead
import PLang.Proofs.Parsing.Simulation
import PLang.Proofs.ValidPrefix.Numbers

/-!
# Parsing actions and the words that they take

A parsing action takes words of a language, token by token. Where it succeeds, the kinds of the
tokens that it has taken are a word; where it complains, it does so about the current token, and
what it has taken can be completed to a word. All this depends on the tokens up to the current one
only: on other tokens that start with the same kinds, the action goes the same way up to there.

The second half of this needs a second parser beside the first. `Parser.Agrees` says that two
parsers have tokens of the same kinds in front of them, up to some number of tokens, and `Follows`
that they go the same way as long as they take no more than these.

A number that cannot be read is the other reason to stop. `Follows` says which number it is. It
counts the tokens before the action in, as the header of a loop has been taken when its bounds are
read.
-/

namespace PLang

open Grammar Grammar.Phrase List Parse
open Parse (bind_ok bind_error)

variable {α β γ : Type}

variable {k : Nat} {kind : TokenKind} {kinds : List TokenKind} {r : Phrase} {wanted : String}

/-- A phrase that starts with a token allows no empty word. -/
theorem Grammar.Phrase.Starts.length_pos {w : List TokenKind} (hr : r.Starts kinds)
    (h : Derives r w) : 1 ≤ w.length := by
  obtain ⟨t, us, heq, -⟩ := hr _ (covers_spelling h)
  have hlength := congrArg length heq
  rw [length_map, length_cons] at hlength
  omega

/-- Whether a token is of the same kind as another one, and can be read if that one can. -/
structure Token.Fits (t t' : Token) : Prop where
  kind : t'.kind = t.kind
  readable : Readable t → Readable t'

theorem Token.Fits.refl (t : Token) : t.Fits t := ⟨rfl, id⟩

/-- Whether an error says that a token cannot stand where it does. -/
def Error.Blames (e : Error) (t : Token) : Prop :=
  e.location = t.location ∧ (e.cause = .unexpectedToken t.value ∨
    ∃ wanted, e.cause = .unexpectedTokenFor t.value wanted)

namespace Parser

variable {d l l' b n : Nat} {p p' : Parser} {e : Error}

/-- Two parsers whose first `n` tokens fit. The first one has `b` nesting levels more than tokens
left. -/
structure Agrees (d l l' b n : Nat) (p p' : Parser) : Prop where
  left : p.Ready d l
  right : 0 < n → p'.Ready d l'
  room : d + p.remaining + b ≤ l
  tokens : List.Forall₂ Token.Fits (p.tokens.take n) (p'.tokens.take n)

/-- A parser whose second one is left behind. -/
theorem Ready.alone (h : p.Ready d l) (hroom : d + p.remaining + b ≤ l) : p.Agrees d l l' b 0 p' :=
  ⟨h, fun hn => absurd hn (Nat.not_lt_zero _), hroom, .nil⟩

namespace Agrees

theorem weaken {b' : Nat} (h : p.Agrees d l l' b n p') (hb : b' ≤ b) : p.Agrees d l l' b' n p' :=
  ⟨h.left, h.right, by have := h.room; omega, h.tokens⟩

/-- Building a tree takes no tokens. -/
theorem withStores (h : p.Agrees d l l' b n p') (s s' : Store) :
    Agrees d l l' b n { p with store := s } { p' with store := s' } :=
  ⟨⟨h.left.tables, h.left.depth, h.left.limit, h.left.closed⟩,
    fun hn => ⟨(h.right hn).tables, (h.right hn).depth, (h.right hn).limit, (h.right hn).closed⟩,
    h.room, h.tokens⟩

/-- The current tokens fit. -/
theorem current (h : p.Agrees d l l' b n p') (hn : 0 < n) :
    p.stream.current.Fits p'.stream.current := by
  obtain ⟨n, rfl⟩ := Nat.exists_eq_add_of_lt hn
  have htokens := h.tokens
  rw [Nat.zero_add, Parser.tokens, Parser.tokens, take_succ_cons, take_succ_cons] at htokens
  cases htokens with
  | cons hfits _ => exact hfits

/-- The second parser takes a token as well, if more than one fits. -/
theorem advance (h : p.Agrees d l l' b n p') (hend : p.stream.current.kind ≠ .endOfFile)
    (hn : 1 < n) :
    ∃ p1', advance p' = .ok p'.stream.current p1' ∧ p1'.Ready d l' ∧
      p1'.remaining + 1 = p'.remaining ∧ p.stream.current.Fits p'.stream.current ∧
      List.Forall₂ Token.Fits ((Parser.tokens { p with stream := p.stream.advance }).take (n - 1))
        (p1'.tokens.take (n - 1)) := by
  have hpos := Nat.zero_lt_of_lt hn
  have hfits := h.current hpos
  obtain ⟨-, htokens⟩ := h.left.advance hend
  obtain ⟨hp1', htokens'⟩ := (h.right hpos).advance (hfits.kind ▸ hend)
  refine ⟨_, rfl, hp1', ?_, hfits, ?_⟩
  · have hlength := congrArg length htokens'
    simp only [Parser.tokens, length_cons] at hlength
    exact (Nat.succ.inj hlength).symm
  · have hall := h.tokens
    rw [htokens, htokens'] at hall
    cases n with
    | zero => cases hn
    | succ n =>
      rw [take_succ_cons, take_succ_cons] at hall
      exact (forall₂_cons.1 hall).2

end Agrees

theorem misplaced_blames (p : Parser) : p.misplaced.Blames p.stream.current := ⟨rfl, .inl rfl⟩

theorem unexpected_blames (p : Parser) (wanted : String) :
    (p.unexpected wanted).Blames p.stream.current := ⟨rfl, .inr ⟨wanted, rfl⟩⟩

end Parser

/-- How an action runs that takes words of a language, and how it runs on tokens of which the first
`n` fit: the same way, unless it has taken these tokens. The numbers of the tokens that it takes are
read by its end, together with those of the tokens `back` before them. -/
inductive Follows (back : List Token) (d l l' n : Nat) (L : List TokenKind → Prop)
    (R : α → α → Parser → Prop) (p p' : Parser) (x x' : Parse α) : Prop
  | ok (front : List Token) {a : α} {p1 : Parser} (run : x p = .ok a p1)
      (split : p.tokens = front ++ p1.tokens) (settled : Settled (back ++ front))
      (word : L (front.map Token.kind)) (ready : p1.Ready d l) (post : R a a p1)
      (step : front.length < n → ∃ a' p1', x' p' = .ok a' p1' ∧ p1'.Ready d l' ∧
        p1'.remaining + front.length = p'.remaining ∧ R a a' p1 ∧
        List.Forall₂ Token.Fits (p1.tokens.take (n - front.length))
          (p1'.tokens.take (n - front.length)))
  | complaint (front : List Token) (u : List TokenKind) {e : Error} {p1 : Parser}
      (run : x p = .error e p1) (split : p.tokens = front ++ p1.tokens)
      (blames : e.Blames p1.stream.current)
      (more : u ≠ []) (word : L (front.map Token.kind ++ u))
      (step : front.length < n → ∃ e' p1', x' p' = .error e' p1')
  | malformed (before behind : List Token) {t : Token} {p1 : Parser} {w : List TokenKind}
      (run : x p = .error ⟨.malformedNumber t.value, t.location⟩ p1)
      (split : back ++ p.tokens = before ++ t :: behind)
      (stops : Stops before t behind) (word : L w)
      (start : (before ++ [t]).map Token.kind <+: back.map Token.kind ++ w)

/-- Nothing is said about what is returned. -/
def Any (_ _ : α) (_ : Parser) : Prop := True

/-- From two states that agree, two actions take the words of a phrase. -/
abbrev Parser.Agrees.Takes {d l l' b n : Nat} {p p' : Parser}
    (_ : p.Agrees d l l' b n p') (r : Phrase)
    (x x' : Parse α) : Prop :=
  Follows [] d l l' n (Derives r) Any p p' x x'

namespace Follows

variable {back : List Token} {d l l' b n : Nat} {L M : List TokenKind → Prop}
  {R mid : α → α → Parser → Prop}
  {p p' : Parser} {x x' : Parse α}

variable {L' : List TokenKind → Prop}

theorem mono (h : Follows back d l l' n M mid p p' x x')
    (hL : ∀ w, M w → L' w) (hR : ∀ a a' q, mid a a' q → R a a' q) :
    Follows back d l l' n L' R p p' x x' := by
  cases h with
  | ok front run split settled word ready post step =>
    refine .ok front run split settled (hL _ word) ready (hR _ _ _ post) fun hn => ?_
    obtain ⟨a', p1', run', ready', hremaining, hmid, hfits⟩ := step hn
    exact ⟨a', p1', run', ready', hremaining, hR _ _ _ hmid, hfits⟩
  | complaint front u run split blames more word step =>
    exact .complaint front u run split blames more (hL _ word) step
  | malformed before behind run split stops word start =>
    exact .malformed before behind run split stops (hL _ word) start

/-- The words of a language are words of a greater one. -/
theorem widen (h : Follows back d l l' n M R p p' x x')
    (hL : ∀ w, M w → L' w) : Follows back d l l' n L' R p p' x x' :=
  h.mono hL fun _ _ _ => id

/-- A rule takes what its name derives. -/
theorem name {y : Name} (h : Follows back d l l' n (Derives (rule y)) R p p' x x') :
    Follows back d l l' n (Derives (name y)) R p p' x x' :=
  h.widen fun _ => .name

/-- Nothing is said about the second parser once the tokens that fit are taken. -/
theorem past {q : Parser} {y : Parse α} (h : Follows back d l l' 0 L R p p' x x') :
    Follows back d l l' 0 L R p q x y := by
  cases h with
  | ok front run split settled word ready post _ =>
    exact .ok front run split settled word ready post fun hn => absurd hn (Nat.not_lt_zero _)
  | complaint front u run split blames more word _ =>
    exact .complaint front u run split blames more word fun hn => absurd hn (Nat.not_lt_zero _)
  | malformed before behind run split stops word start =>
    exact .malformed before behind run split stops word start

/-- Only what the actions do in the states at hand counts. -/
theorem ofRun (y y' : Parse α) (hx : x p = y p) (hx' : 0 < n → x' p' = y' p')
    (h : Follows back d l l' n L R p p' y y') : Follows back d l l' n L R p p' x x' := by
  cases h with
  | ok front run split settled word ready post step =>
    refine .ok front (hx.trans run) split settled word ready post fun hn => ?_
    rw [hx' (by omega)]
    exact step hn
  | complaint front u run split blames more word step =>
    refine .complaint front u (hx.trans run) split blames more word fun hn => ?_
    rw [hx' (by omega)]
    exact step hn
  | malformed before behind run split stops word start =>
    exact .malformed before behind (hx.trans run) split stops word start

theorem ite {c : Prop} [Decidable c] {y y' : Parse α} (hx : c → Follows back d l l' n L R p p' x x')
    (hy : ¬c → Follows back d l l' n L R p p' y y') :
    Follows back d l l' n L R p p' (if c then x else y) (if c then x' else y') := by
  split
  next h => exact hx h
  next h => exact hy h

/-! ### One action after another -/

theorem pure {a a' : α} (hp : p.Agrees d l l' b n p') (hL : L []) (hR : R a a p) (hR' : R a a' p) :
    Follows [] d l l' n L R p p' (Pure.pure a) (Pure.pure a') := by
  refine .ok [] rfl rfl .nil hL hp.left hR fun hn => ?_
  exact ⟨a', p', rfl, hp.right hn, rfl, hR', hp.tokens⟩

theorem done {a a' : α} (hp : p.Agrees d l l' b n p') :
    Follows [] d l l' n (Derives (sequence [])) Any p p' (Pure.pure a) (Pure.pure a') :=
  .pure hp .nil trivial trivial

/-- Tokens may stand before those that an action takes, once their numbers have been read. -/
theorem within (h : Follows [] d l l' n L R p p' x x') (hback : Settled back) :
    Follows back d l l' n L R p p' x x' := by
  cases h with
  | ok front run split settled word ready post step =>
    exact .ok front run split (hback.append settled) word ready post step
  | complaint front u run split blames more word step =>
    exact .complaint front u run split blames more word step
  | malformed before behind run split stops word start =>
    refine .malformed (back ++ before) behind run ?_ (stops.append hback) word ?_
    · rw [append_assoc, ← split]
      rfl
    · rw [append_assoc, map_append]
      exact (prefix_append_right_inj _).2 start

/-- What follows an action that has succeeded. The second parser comes along if it has not taken all
the tokens that fit. -/
theorem prepend {y y' : Parse γ} {f f' : γ → Parse α} {c : γ}
    (c' : γ) {n1 : Nat} {p1 : Parser} (p1' : Parser) {front : List Token} (run : y p = .ok c p1)
    (split : p.tokens = front ++ p1.tokens)
    (hstep : front.length < n → n1 = n - front.length ∧ y' p' = .ok c' p1' ∧
      p1'.remaining + front.length = p'.remaining)
    (h : Follows (back ++ front) d l l' n1 (fun v => L (front.map Token.kind ++ v)) R p1 p1' (f c)
      (f' c')) :
    Follows back d l l' n L R p p' (y >>= f) (y' >>= f') := by
  cases h with
  | @ok front2 a p2 run2 split2 settled word ready post step =>
    refine .ok (front ++ front2) ((bind_ok run).trans run2) ?_ ?_ ?_ ready post fun hn => ?_
    · rw [split, split2, append_assoc]
    · rwa [← append_assoc]
    · rwa [map_append]
    · rw [length_append] at hn ⊢
      obtain ⟨rfl, run', hremaining⟩ := hstep (by omega)
      obtain ⟨a', p2', run2', ready', hremaining2, hR, hfits⟩ := step (by omega)
      refine ⟨a', p2', (bind_ok run').trans run2', ready', by omega, hR, ?_⟩
      rwa [Nat.sub_add_eq]
  | @complaint front2 u e p2 run2 split2 blames more word step =>
    refine .complaint (front ++ front2) u ((bind_ok run).trans run2) ?_ blames more ?_
      fun hn => ?_
    · rw [split, split2, append_assoc]
    · rwa [map_append, append_assoc]
    · rw [length_append] at hn
      obtain ⟨rfl, run', -⟩ := hstep (by omega)
      obtain ⟨e', p2', run2'⟩ := step (by omega)
      exact ⟨e', p2', (bind_ok run').trans run2'⟩
  | malformed before behind run2 split2 stops word start =>
    refine .malformed before behind ((bind_ok run).trans run2) ?_ stops word ?_
    · rw [split, ← split2, append_assoc]
    · rwa [← append_assoc, ← map_append]

/-- What follows an action that has succeeded and taken at least `k` tokens. -/
theorem afterOk {y y' : Parse γ} {f f' : γ → Parse α} {Q : γ → γ → Parser → Prop}
    (hp : p.Agrees d l l' b n p') {front : List Token} {c : γ} {p1 : Parser} (run : y p = .ok c p1)
    (split : p.tokens = front ++ p1.tokens) (hk : k ≤ front.length) (ready : p1.Ready d l)
    (post : Q c c p1) (step : front.length < n → ∃ c' p1', y' p' = .ok c' p1' ∧ p1'.Ready d l' ∧
      p1'.remaining + front.length = p'.remaining ∧ Q c c' p1 ∧
      List.Forall₂ Token.Fits (p1.tokens.take (n - front.length))
        (p1'.tokens.take (n - front.length)))
    (hf : ∀ c' n1 p1', p1.Agrees d l l' (b + k) n1 p1' → p1.remaining + k ≤ p.remaining →
      (0 < n1 → 0 < n ∧ p1'.remaining + k ≤ p'.remaining) → Q c c' p1 →
      Follows (back ++ front) d l l' n1 (fun v => L (front.map Token.kind ++ v)) R p1 p1' (f c)
        (f' c')) : Follows back d l l' n L R p p' (y >>= f) (y' >>= f') := by
  have hlength := congrArg length split
  rw [length_append, Parser.tokens, Parser.tokens, length_cons, length_cons]
    at hlength
  have hremaining : p1.remaining + front.length = p.remaining := by
    rw [Parser.remaining, Parser.remaining]
    omega
  have hroom : d + p1.remaining + (b + k) ≤ l := by
    have := hp.room
    omega
  by_cases hn : front.length < n
  · obtain ⟨c', p1', run', ready', hremaining', hmid, hfits⟩ := step hn
    have hagrees : p1.Agrees d l l' (b + k) (n - front.length) p1' :=
      ⟨ready, fun _ => ready', hroom,
      hfits⟩
    exact prepend c' p1' run split (fun _ => ⟨rfl, run', hremaining'⟩) (hf c' _ p1' hagrees
      (by omega) (fun _ => ⟨by omega, by omega⟩) hmid)
  · -- the second parser is left behind, and the first one goes on beside itself
    exact prepend c p1 run split (fun h => absurd h hn) (hf c 0 p1 (ready.alone hroom) (by omega)
      (fun h => absurd h (Nat.not_lt_zero _)) post)

/-- Two actions. The second one may start from any word of the first one, which takes at least `k`
tokens. -/
theorem bind {y y' : Parse γ} {f f' : γ → Parse α} {mid : γ → γ → Parser → Prop}
    (hp : p.Agrees d l l' b n p') (hy : Follows [] d l l' n M mid p p' y y')
    (hlong : ∀ w, M w → k ≤ w.length) (hword : ∀ w, M w → ∃ v, L (w ++ v))
    (hf : ∀ c c' n1 p1 p1' w, M w → p1.Agrees d l l' (b + k) n1 p1' →
      p1.remaining + k ≤ p.remaining →
      (0 < n1 → 0 < n ∧ p1'.remaining + k ≤ p'.remaining) → mid c c' p1 →
      Follows [] d l l' n1 (fun v => L (w ++ v)) R p1 p1' (f c) (f' c')) :
    Follows [] d l l' n L R p p' (y >>= f) (y' >>= f') := by
  cases hy with
  | malformed before behind run split stops word start =>
    obtain ⟨v, hv⟩ := hword _ word
    refine .malformed before behind (bind_error run) split stops hv ?_
    exact start.trans ⟨v, by simp⟩
  | @complaint front u e p1 run split blames more word step =>
    obtain ⟨v, hv⟩ := hword _ word
    refine .complaint front (u ++ v) (bind_error run) split blames (by simp [more]) ?_
      fun hn => ?_
    · rwa [← append_assoc]
    · obtain ⟨e', p1', run'⟩ := step hn
      exact ⟨e', p1', bind_error run'⟩
  | @ok front c p1 run split settled word ready post step =>
    have hk : k ≤ front.length := by simpa using hlong _ word
    exact afterOk hp run split hk ready post step fun c' n1 p1' hp1 hremaining hremaining' hmid =>
      within (hf c c' n1 p1 p1' _ word hp1 hremaining hremaining' hmid) settled

section Sequence

variable {y y' : Parse γ} {f f' : γ → Parse α} {mid : γ → γ → Parser → Prop} {rs : List Phrase}

section

variable (hp : p.Agrees d l l' b n p')

include hp

/-- A part of a sequence that takes at least `k` tokens, and the parts after it. -/
theorem partThen [hrs : (sequence rs).Productive]
    (hy : Follows [] d l l' n (Derives r) mid p p' y y') (hlong : ∀ w, Derives r w → k ≤ w.length)
    (hf : ∀ {c c' n1 p1 p1'}, p1.Agrees d l l' (b + k) n1 p1' → mid c c' p1 →
      Follows [] d l l' n1 (Derives (sequence rs)) R p1 p1' (f c) (f' c')) :
    Follows [] d l l' n (Derives (sequence (r :: rs))) R p p' (y >>= f) (y' >>= f') := by
  refine bind hp hy hlong (fun w hw => ?_) fun c c' n1 p1 p1' w hw hp1 _ _ hmid => ?_
  · obtain ⟨v, hv⟩ := hrs.word
    exact ⟨v, hw.cons hv⟩
  · exact (hf hp1 hmid).widen fun v hv => hw.cons hv

/-- A part of a sequence, and the parts after it. -/
theorem andThen [(sequence rs).Productive] (hy : Follows [] d l l' n (Derives r) mid p p' y y')
    (hf : ∀ {c c' n1 p1 p1'}, p1.Agrees d l l' b n1 p1' → mid c c' p1 →
      Follows [] d l l' n1 (Derives (sequence rs)) R p1 p1' (f c) (f' c')) :
    Follows [] d l l' n (Derives (sequence (r :: rs))) R p p' (y >>= f) (y' >>= f') :=
  partThen (k := 0) hp hy (fun _ _ => Nat.zero_le _) hf

/-- A token, and the parts after it, which have a nesting level more for every token left. -/
theorem tokenThen [(sequence rs).Productive]
    (hy : Follows [] d l l' n (Derives (oneOf kinds)) mid p p' y y')
    (hf : ∀ {c c' n1 p1 p1'}, p1.Agrees d l l' (b + 1) n1 p1' → mid c c' p1 →
      Follows [] d l l' n1 (Derives (sequence rs)) R p1 p1' (f c) (f' c')) :
    Follows [] d l l' n (Derives (sequence (oneOf kinds :: rs))) R p p' (y >>= f) (y' >>= f') := by
  refine partThen hp hy (fun w hw => ?_) hf
  cases hw
  exact Nat.le_refl 1

/-- A token of a kind, and what makes words of a language when it stands behind that token. -/
theorem tokenBind (hy : Follows [] d l l' n (Derives (token kind)) mid p p' y y')
    (hword : ∃ v, L (kind :: v))
    (hf : ∀ {c c' n1 p1 p1'}, p1.Agrees d l l' (b + 1) n1 p1' → mid c c' p1 →
      Follows [] d l l' n1 (fun v => L (kind :: v)) R p1 p1' (f c) (f' c')) :
    Follows [] d l l' n L R p p' (y >>= f) (y' >>= f') := by
  have hsingle : ∀ w, Derives (token kind) w → w = [kind] := by
    intro w hw
    cases hw with
    | oneOf hk => rw [mem_singleton.1 hk]
  refine bind (k := 1) hp hy (fun w hw => ?_) (fun w hw => ?_)
    fun c c' n1 p1 p1' w hw hp1 _ _ hmid => ?_
  · rw [hsingle w hw]
    exact Nat.le_refl 1
  · rw [hsingle w hw]
    exact hword
  · rw [hsingle w hw]
    exact hf hp1 hmid

/-- An action, and one after it that takes nothing. -/
theorem andQuiet (hy : Follows [] d l l' n L mid p p' y y')
    (hf : ∀ {c c' n1 p1 p1'}, p1.Agrees d l l' b n1 p1' → mid c c' p1 →
      Follows [] d l l' n1 (· = []) R p1 p1' (f c) (f' c')) :
    Follows [] d l l' n L R p p' (y >>= f) (y' >>= f') := by
  refine bind (k := 0) hp hy (fun _ _ => Nat.zero_le _) (fun w hw => ⟨[], ?_⟩)
    fun c c' n1 p1 p1' w hw hp1 _ _ hmid => ?_
  · rwa [append_nil]
  · refine (hf hp1 hmid).widen ?_
    rintro v rfl
    rwa [append_nil]


end
end Sequence

/-- The last part of a sequence. -/
theorem last (h : Follows back d l l' n (Derives r) R p p' x x') :
    Follows back d l l' n (Derives (sequence [r])) R p p' x x' :=
  h.widen fun _ => derives_last

/-! ### Actions that take no tokens -/

/-- Looking at the state takes nothing. -/
theorem look {view view' : Parse γ} {c c' : γ} {f f' : γ → Parse α} (hview : view p = .ok c p)
    (hview' : view' p' = .ok c' p') (h : Follows back d l l' n L R p p' (f c) (f' c')) :
    Follows back d l l' n L R p p' (view >>= f) (view' >>= f') :=
  .ofRun _ _ (bind_ok hview) (fun _ => bind_ok hview') h

/-- The kind of the current token is the same for both. -/
theorem lookKind {f f' : TokenKind → Parse α} (hp : p.Agrees d l l' b n p')
    (h : Follows back d l l' n L R p p' (f p.stream.current.kind) (f' p.stream.current.kind)) :
    Follows back d l l' n L R p p' (currentKind >>= f) (currentKind >>= f') := by
  refine .ofRun _ _ (bind_ok rfl) (fun hn => ?_) h
  rw [← (hp.current hn).kind]
  exact bind_ok rfl

theorem build_bind {action action' : Build γ} {f f' : γ → Parse α}
    (h : Follows back d l l' n L R { p with store := (action p.store).2 }
      { p' with store := (action' p'.store).2 } (f (action p.store).1) (f' (action' p'.store).1)) :
    Follows back d l l' n L R p p' (build action >>= f) (build action' >>= f') := by
  cases h with
  | ok front run split settled word ready post step =>
    exact .ok front run split settled word ready post step
  | complaint front u run split blames more word step =>
    exact .complaint front u run split blames more word step
  | malformed before behind run split stops word start =>
    exact .malformed before behind run split stops word start

/-- The tree is built at the end. -/
theorem build {action action' : Build α} (hp : p.Agrees d l l' b n p') (hL : L []) :
    Follows [] d l l' n L Any p p' (build action) (build action') :=
  .ok [] rfl rfl .nil hL (hp.withStores _ (action' p'.store).2).left trivial
    fun hn => ⟨_, _, rfl, (hp.withStores (action p.store).2 _).right hn, rfl, trivial, hp.tokens⟩

/-- What an action returns can be wrapped up. -/
theorem map {g : α → β} (h : Follows back d l l' n L Any p p' x x') :
    Follows back d l l' n L Any p p' (g <$> x) (g <$> x') := by
  have hok : ∀ {x : Parse α} {q q1 : Parser} {a : α}, x q = .ok a q1 → (g <$> x) q = .ok (g a) q1 :=
    fun run => bind_ok run
  have herror : ∀ {x : Parse α} {q q1 : Parser} {e : Error}, x q = .error e q1 →
      (g <$> x) q = .error e q1 := fun run => bind_error run
  cases h with
  | ok front run split settled word ready _ step =>
    refine .ok front (hok run) split settled word ready trivial fun hn => ?_
    obtain ⟨a', p1', run', ready', hremaining, -, hfits⟩ := step hn
    exact ⟨g a', p1', hok run', ready', hremaining, trivial, hfits⟩
  | complaint front u run split blames more word step =>
    refine .complaint front u (herror run) split blames more word fun hn => ?_
    obtain ⟨e', p1', run'⟩ := step hn
    exact ⟨e', p1', herror run'⟩
  | malformed before behind run split stops word start =>
    exact .malformed before behind (herror run) split stops word start

/-! ### Tokens -/

variable {complaint : Parser → Error}

/-- A complaint about the current token, in place of some word. -/
theorem fail {complaint' : Parser → Error} {u : List TokenKind}
    (hblames : (complaint p).Blames p.stream.current) (hu : u ≠ []) (hL : L u) :
    Follows back d l l' n L R p p' (fail complaint) (fail complaint') :=
  .complaint [] u rfl rfl hblames hu hL fun _ => ⟨_, _, rfl⟩

section

variable (hp : p.Agrees d l l' b n p')

include hp

/-- The current token, whose kind is known. -/
theorem taken (hk : p.stream.current.kind ∈ kinds) (hend : p.stream.current.kind ≠ .endOfFile)
    (hsettled : Settled [p.stream.current]) :
    Follows [] d l l' n (Derives (oneOf kinds)) (fun t t' _ => t.kind ∈ kinds ∧ t.Fits t') p p'
      advance advance := by
  obtain ⟨hp1, htokens⟩ := hp.left.advance hend
  refine .ok [p.stream.current] rfl htokens hsettled (.oneOf hk) hp1 ⟨hk, .refl _⟩ fun hn => ?_
  obtain ⟨p1', run', ready', hremaining, hfits, hrest⟩ := hp.advance hend hn
  exact ⟨p'.stream.current, p1', run', ready', hremaining, ⟨hk, hfits⟩, hrest⟩

/-- The current token, which is of one of some plain kinds. -/
theorem take (hk : p.stream.current.kind ∈ kinds)
    (hkinds : ∀ k ∈ kinds, k.isPlain = true) :
    Follows [] d l l' n (Derives (oneOf kinds)) (fun t t' _ => t.kind ∈ kinds ∧ t.Fits t') p p'
      advance advance :=
  taken hp hk (TokenKind.ne_of_isPlain (hkinds _ hk) (by decide)) (.plain (hkinds _ hk))

/-- The current token, which is of a kind. -/
theorem advance (hk : p.stream.current.kind = kind) (hkind : kind.isPlain = true) :
    Follows [] d l l' n (Derives (token kind)) (fun t t' _ => t.kind = kind ∧ t.Fits t') p p'
      advance advance := by
  have hmem : p.stream.current.kind ∈ [kind] := mem_singleton.2 hk
  refine (take hp hmem fun k h => ?_).mono (fun _ => id) fun t t' _ h => ⟨mem_singleton.1 h.1, h.2⟩
  rwa [mem_singleton.1 h]

theorem expectOr (hkind : kind.isPlain = true)
    (hblames : (complaint p).Blames p.stream.current) :
    Follows [] d l l' n (Derives (token kind)) (fun t t' _ => t.kind = kind ∧ t.Fits t') p p'
      (expectOr kind complaint) (expectOr kind complaint) := by
  by_cases hk : p.stream.current.kind = kind
  · refine .ofRun _ _ (if_pos hk) (fun hn => if_pos ?_) (.advance hp hk hkind)
    exact (hp.current hn).kind.trans hk
  · refine .ofRun _ _ (if_neg hk) (fun hn => if_neg ?_) (.fail hblames (cons_ne_nil kind [])
      (derives_token kind))
    rwa [(hp.current hn).kind]

/-- A token of a kind. -/
theorem expect (hkind : kind.isPlain = true) :
    Follows [] d l l' n (Derives (token kind)) (fun t t' _ => t.kind = kind ∧ t.Fits t') p p'
      (expect kind) (expect kind) :=
  .expectOr hp hkind p.misplaced_blames

theorem expectFor (hkind : kind.isPlain = true) :
    Follows [] d l l' n (Derives (token kind)) (fun t t' _ => t.kind = kind ∧ t.Fits t') p p'
      (expectFor kind wanted) (expectFor kind wanted) :=
  .expectOr hp hkind (p.unexpected_blames wanted)

/-- A token of a kind, and the parts after it, which read the number of the token if it has one. -/
theorem tokenOpen {f f' : Token → Parse α} {rs : List Phrase} [hrs : (sequence rs).Productive]
    (hkind : decide (kind = .endOfFile) = false)
    (hf : ∀ {t t' n1 p1 p1'}, p1.Agrees d l l' (b + 1) n1 p1' → t.kind = kind ∧ t.Fits t' →
      Follows (back ++ [t]) d l l' n1 (Derives (sequence rs)) R p1 p1' (f t) (f' t')) :
    Follows back d l l' n (Derives (sequence (token kind :: rs))) R p p'
      (Parse.expectFor kind wanted >>= f) (Parse.expectFor kind wanted >>= f') := by
  by_cases hk : p.stream.current.kind = kind
  · have hrun : ∀ q : Parser, q.stream.current.kind = kind →
        Parse.expectFor kind wanted q = Parse.advance q := fun q hq => if_pos hq
    have hend : p.stream.current.kind ≠ .endOfFile := hk ▸ of_decide_eq_false hkind
    obtain ⟨hp1, htokens⟩ := hp.left.advance hend
    rw [← List.singleton_append] at htokens
    refine afterOk (k := 1) (Q := fun t t' _ => t.kind = kind ∧ t.Fits t') hp (hrun p hk)
      htokens (Nat.le_refl 1) hp1 ⟨hk, .refl _⟩ (fun hn => ?_)
      fun c' n1 p1' hp1 _ _ hmid => ?_
    · obtain ⟨p1', run', ready', hremaining, hfits, hrest⟩ := hp.advance hend hn
      exact ⟨p'.stream.current, p1', (hrun p' (hfits.kind.trans hk)).trans run', ready', hremaining,
        ⟨hk, hfits⟩, hrest⟩
    · exact (hf hp1 hmid).widen fun v hv => .cons (.oneOf (List.mem_singleton.2 hk)) hv
  · obtain ⟨v, hv⟩ := hrs.word
    have hfails : ∀ q : Parser, q.stream.current.kind ≠ kind →
        Parse.expectFor kind wanted q = .error (q.unexpected wanted) q := fun q hq => if_neg hq
    refine .complaint [] (kind :: v) (bind_error (hfails p hk)) rfl (p.unexpected_blames wanted)
      (List.cons_ne_nil _ _) ((derives_token kind).cons hv) fun hn => ?_
    exact ⟨_, _, bind_error (hfails p' fun h => hk ((hp.current hn).kind.symm.trans h))⟩

end

/-! ### Numbers -/

/-- The number of a token is read, if it can be. -/
theorem integer_bind {t t' : Token} {f f' : Int → Parse α} (hkind : t.kind = .integer)
    (hfits : t.Fits t')
    (hnone : ¬Readable t → integer t p = .error ⟨.malformedNumber t.value, t.location⟩ p →
      Follows back d l l' n L R p p' (integer t >>= f) (integer t' >>= f'))
    (hsome : Readable t → ∀ v v', Follows back d l l' n L R p p' (f v) (f' v')) :
    Follows back d l l' n L R p p' (integer t >>= f) (integer t' >>= f') := by
  have hrun : ∀ (t : Token) (v : Int) (q : Parser), wordOfText? t.value = some v →
      integer t q = .ok v q := by
    intro t v q hv
    rw [integer, wordOf, hv]
  cases hv : wordOfText? t.value with
  | none =>
    refine hnone (fun ht => ?_) ?_
    · have := ht.1 hkind
      rw [hv] at this
      cases this
    · rw [integer, wordOf, hv]
  | some v =>
    have hreadable : Readable t := by
      refine ⟨fun _ => by rw [hv]; rfl, fun hreal => ?_⟩
      rw [hkind] at hreal
      cases hreal
    obtain ⟨v', hv'⟩ := Option.isSome_iff_exists.1
      ((hfits.readable hreadable).1 (hfits.kind.trans hkind))
    exact .ofRun _ _ (bind_ok (hrun t v p hv)) (fun _ => bind_ok (hrun t' v' p' hv'))
      (hsome hreadable v v')

/-- A number that is read where it stands, and the parts after it. -/
theorem integerThen {f f' : Token → Int → Parse α} {rs : List Phrase}
    [hrs : (sequence rs).Productive] (hp : p.Agrees d l l' b n p')
    (hf : ∀ {t t' v v' n1 p1 p1'}, p1.Agrees d l l' (b + 1) n1 p1' →
      Follows [] d l l' n1 (Derives (sequence rs)) R p1 p1' (f t v) (f' t' v')) :
    Follows [] d l l' n (Derives (sequence (token .integer :: rs))) R p p'
      (do let t ← Parse.expectFor .integer wanted; let v ← Parse.integer t; f t v)
      (do let t ← Parse.expectFor .integer wanted; let v ← Parse.integer t; f' t v) := by
  refine .tokenOpen hp rfl fun {t t' n1 p1 p1'} hp1 ht => ?_
  refine .integer_bind ht.1 ht.2 (fun hunread hrun => ?_) fun hread v v' => ?_
  · obtain ⟨w, hw⟩ := hrs.word
    exact .malformed [] p1.tokens (bind_error hrun) rfl (.first hunread) hw (prefix_append _ _)
  · exact (hf hp1).within (.single hread (by rw [ht.1]; decide))

/-- A bound of a counting loop is read behind the loop. -/
theorem bound_bind {header body : List Token} {t t' : Token} {f f' : Int → Parse α}
    (hheader : header.map Token.kind = loopHeader) (hk : loopHeader[k]? = some .integer)
    (ht : header[k]? = some t) (hfits : t.Fits t') (hfirst : ∀ s ∈ header.take k, Readable s)
    (hbody : loopTail.Covers body)
    (h : Readable t → ∀ v v', Follows (header ++ body) d l l' n (· = []) R p p' (f v) (f' v')) :
    Follows (header ++ body) d l l' n (· = []) R p p' (Parse.integer t >>= f)
      (Parse.integer t' >>= f') := by
  have hkind : t.kind = .integer := by
    have hmap := congrArg (Option.map Token.kind) ht
    rw [← List.getElem?_map, hheader, hk] at hmap
    exact (Option.some.inj hmap).symm
  have hsplit : header = header.take k ++ t :: header.drop (k + 1) := by
    obtain ⟨hlt, rfl⟩ := List.getElem?_eq_some_iff.1 ht
    rw [← List.drop_eq_getElem_cons hlt, List.take_append_drop]
  refine .integer_bind hkind hfits (fun hunread hrun => ?_) h
  refine .malformed (header.take k) (header.drop (k + 1) ++ (body ++ p.tokens)) (w := [])
    (bind_error hrun) ?_ (.bound hheader hk ht hunread hfirst hbody) rfl ?_
  · rw [← List.cons_append, ← List.append_assoc (header.take k), ← hsplit, List.append_assoc]
  · refine ⟨(header.drop (k + 1) ++ body).map Token.kind, ?_⟩
    rw [← List.map_append, List.append_nil, List.append_assoc, List.singleton_append,
      ← List.cons_append, ← List.append_assoc, ← hsplit]

/-- A token of a kind, if it is the current one. -/
theorem accept {f f' : Option Token → Parse α} (hp : p.Agrees d l l' b n p')
    (hsome : p.stream.current.kind = kind → Follows back d l l' n L R p p'
      (Parse.advance >>= fun t => f (some t)) (Parse.advance >>= fun t => f' (some t)))
    (hnone : p.stream.current.kind ≠ kind → Follows back d l l' n L R p p' (f none) (f' none)) :
    Follows back d l l' n L R p p' (Parse.accept? kind >>= f) (Parse.accept? kind >>= f') := by
  have hrun : ∀ (q : Parser) (g : Option Token → Parse α), q.stream.current.kind = kind →
      (Parse.accept? kind >>= g) q = (Parse.advance >>= fun t => g (some t)) q := by
    intro q g hk
    have haccept : Parse.accept? kind q =
        .ok (some q.stream.current) { q with stream := q.stream.advance } := by
      rw [Parse.accept?, if_pos hk]
    exact (bind_ok haccept).trans (bind_ok rfl).symm
  have hskip : ∀ (q : Parser) (g : Option Token → Parse α), q.stream.current.kind ≠ kind →
      (Parse.accept? kind >>= g) q = g none q := by
    intro q g hk
    refine bind_ok ?_
    rw [Parse.accept?, if_neg hk]
  by_cases hk : p.stream.current.kind = kind
  · exact .ofRun _ _ (hrun p f hk) (fun hn => hrun p' f' ((hp.current hn).kind.trans hk)) (hsome hk)
  · refine .ofRun _ _ (hskip p f hk) (fun hn => hskip p' f' ?_) (hnone hk)
    rwa [(hp.current hn).kind]

/-! ### Repetitions -/

/-- What is known after a list of elements: there are no more, and there is a list if there was one
or an element could be read. -/
def Exhausts (more : TokenKind → Bool) (p : Parser) (list found found' : Option NodeId)
    (q : Parser) : Prop :=
  more q.stream.current.kind = false ∧
    (list.isSome ∨ more p.stream.current.kind → found.isSome ∧ found'.isSome)

section Many

variable {more : TokenKind → Bool} {element element' : Parse NodeId} {r : Phrase}
  {kinds : List TokenKind}
  (hstarts : r.Starts kinds)
  (helement : ∀ n p p', p.Agrees d l l' b n p' → more p.stream.current.kind = true →
    Follows [] d l l' n (Derives r) Any p p' element element')

include hstarts helement

/-- Every element takes a token, so that there are enough rounds. -/
theorem manyUpTo (fuel : Nat) : ∀ (fuel' n : Nat) (p p' : Parser) (list list' : Option NodeId),
    p.Agrees d l l' b n p' → p.remaining < fuel → (0 < n → p'.remaining < fuel') →
    list'.isSome = list.isSome → Follows [] d l l' n (Derives (many r)) (Exhausts more p list) p p'
      (manyUpTo more element fuel list) (manyUpTo more element' fuel' list') := by
  induction fuel with
  | zero => exact fun _ _ p _ _ _ _ hfuel => absurd hfuel (Nat.not_lt_zero _)
  | succ fuel ih =>
    intro fuel' n p p' list list' hp hfuel hfuel' hlist
    -- a second parser without rounds has been left behind already
    wlog hpos : 0 < fuel' generalizing fuel' n p' list'
    · obtain rfl : n = 0 := by
        by_contra hn
        exact hpos (Nat.zero_lt_of_lt (hfuel' (Nat.pos_of_ne_zero hn)))
      exact (this (fuel + 1) 0 p list (hp.left.alone hp.room) (fun _ => hfuel) rfl
        (Nat.succ_pos fuel)).past
    obtain ⟨fuel', rfl⟩ := Nat.exists_eq_succ_of_ne_zero (Nat.ne_of_gt hpos)
    refine .lookKind hp ?_
    refine .ite (fun hmore => ?_) fun hmore => ?_
    · refine bind (k := 1) hp (helement n p p' hp hmore) (fun w hw => hstarts.length_pos hw)
        (fun w hw => ⟨[], hw.next .stop⟩)
        fun c c' n1 p1 p1' w hw hp1 hremaining hremaining' _ => ?_
      have hp2 := (hp1.weaken (Nat.le_add_right b 1)).withStores (Build.appendTo list c p1.store).2
        (Build.appendTo list' c' p1'.store).2
      refine .build_bind (mono (ih fuel' n1 _ _ _ _ hp2 ?_ (fun hn => ?_) rfl)
        (fun v hv => hw.next hv) fun _ _ _ h => ⟨h.1, fun _ => h.2 (.inl rfl)⟩)
      · exact Nat.lt_of_lt_of_le hremaining (Nat.le_of_lt_succ hfuel)
      · obtain ⟨hn, hremaining'⟩ := hremaining' hn
        exact Nat.lt_of_lt_of_le hremaining' (Nat.le_of_lt_succ (hfuel' hn))
    · have hstop : more p.stream.current.kind = false := Bool.eq_false_iff.2 hmore
      refine .pure hp .stop ⟨hstop, fun h => ?_⟩ ⟨hstop, fun h => ?_⟩
      · exact ⟨h.resolve_right hmore, h.resolve_right hmore⟩
      · exact ⟨h.resolve_right hmore, hlist.trans (h.resolve_right hmore)⟩

/-- Elements as long as there is one. -/
theorem many {list list' : Option NodeId} (hp : p.Agrees d l l' b n p')
    (hlist : list'.isSome = list.isSome) : Follows [] d l l' n (Derives (Phrase.many r))
      (Exhausts more p list) p p' (many more element list)
      (many more element' list') :=
  .ofRun (Parse.manyUpTo more element (p.remaining + 1) list)
    (Parse.manyUpTo more element' (p'.remaining + 1) list') rfl (fun _ => rfl)
    (manyUpTo hstarts helement _ _ n p p' list list' hp (Nat.lt_succ_self _)
      (fun _ => Nat.lt_succ_self _)
      hlist)

end Many

/-- One element, and then one after each separator. -/
theorem separated {separator : TokenKind} {first first' element element' : Parse NodeId}
    [r.Productive] (hseparator : separator.isPlain = true) (hp : p.Agrees d l l' b n p')
    (hfirst : Follows [] d l l' n (Derives r) Any p p' first first')
    (helement : ∀ n q q', q.Agrees d l l' b n q' → Follows [] d l l' n (Derives r) Any q q'
      element element') :
    Follows [] d l l' n (Derives (Phrase.separated separator r)) Any p p'
      (separated separator first element) (separated separator first' element') := by
  refine .andThen hp hfirst fun hp1 _ => ?_
  refine .andThen hp1 (many (Starts.token_sequence separator) (fun n2 q q' hq hmore => ?_) hp1 rfl)
    fun hp2 _ => .done hp2
  refine .tokenThen hq (.advance hq (eq_of_beq hmore) hseparator) fun hp3 _ => ?_
  exact (helement _ _ _ (hp3.weaken (Nat.le_add_right b 1))).last

end Follows

end PLang
