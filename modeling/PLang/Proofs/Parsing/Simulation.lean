import PLang.Proofs.Building
import PLang.Proofs.Reading

/-!
# Parsing actions and readings

A parsing action follows a reading: where it succeeds, there is exactly one thing to read, it is
read and its layout stands at the end of the store; where it fails, there is nothing to read. The
relation goes through sequences of actions, so that a rule is compared with its reading step by
step.
-/

namespace PLang

open List Parse Reading

variable {α β γ δ : Type}

variable {kind : TokenKind} {p : Parser}

/-- A node declares constants at one place, with a literal at another place. -/
def Store.HoldsConstant (s : Store) (place start : Location) (value : LiteralValue)
    (id : NodeId) : Prop :=
  ∃ first type literal, (s.node? id).map Node.content =
      some (place, .declaration ⟨.constant, first, type, some literal⟩) ∧
    (s.node? literal).map Node.content = some (start, .literal ⟨value, value.text⟩)

namespace Parser

/-- The current token and the ones after it. -/
def tokens (p : Parser) : List Token := p.stream.current :: p.stream.rest

/-- A parser of the language at a nesting depth. Its last token ends the file. -/
structure Ready (d l : Nat) (p : Parser) : Prop where
  tables : p.tables = .standard
  depth : p.depth = d
  limit : p.limit = l
  closed : ∃ body last, p.tokens = body ++ [last] ∧ last.kind = .endOfFile

/-- Going on leaves a parser of the language, also at the last token. -/
theorem Ready.next {d l : Nat} (h : p.Ready d l) :
    Ready d l { p with stream := p.stream.advance } := by
  obtain ⟨body, last, heq, hlast⟩ := h.closed
  obtain ⟨⟨current, rest⟩, store, tables, depth, limit⟩ := p
  cases rest with
  | nil => exact h
  | cons next rest =>
    refine ⟨h.tables, h.depth, h.limit, ?_⟩
    cases body with
    | nil => simp [tokens] at heq
    | cons t body => exact ⟨body, last, (cons.inj heq).2, hlast⟩

/-- A parser that has taken a token which does not end the file. -/
theorem Ready.advance {d l : Nat} (h : p.Ready d l) (hk : p.stream.current.kind ≠ .endOfFile) :
    Ready d l { p with stream := p.stream.advance } ∧
      p.tokens = p.stream.current :: tokens { p with stream := p.stream.advance } := by
  refine ⟨h.next, ?_⟩
  obtain ⟨body, last, heq, hlast⟩ := h.closed
  obtain ⟨⟨current, rest⟩, store, tables, depth, limit⟩ := p
  cases rest with
  | nil =>
    obtain ⟨rfl, h⟩ := append_eq_singleton_iff.1 heq.symm |>.resolve_right fun h => by simp at h
    simp_all
  | cons next rest => rfl

/-- A parser further on in the tokens, and not further up in the nesting. -/
def Onward (p p' : Parser) : Prop := p'.tokens <:+ p.tokens ∧ p.depth ≤ p'.depth

theorem Onward.refl (p : Parser) : p.Onward p := ⟨suffix_refl _, .refl⟩

theorem Onward.trans {p1 p2 : Parser} (h : p.Onward p1) (h' : p1.Onward p2) : p.Onward p2 :=
  ⟨h'.1.trans h.1, Nat.le_trans h.2 h'.2⟩

theorem onward_next (p : Parser) : p.Onward { p with stream := p.stream.advance } := by
  obtain ⟨⟨current, rest⟩, store, tables, depth, limit⟩ := p
  cases rest with
  | nil => exact .refl _
  | cons next rest => exact ⟨suffix_cons current _, .refl⟩

/-- The constants that are declared from a token on are in a store: their declaration stands where
it starts in the source, and their literal where their value starts. -/
def Notes (s : Store) (t : Token) (ts : List Token) : Prop :=
  ∃ declaration rest, Reading.declaration (t :: ts) declaration rest ∧
    ∀ names value, declaration = .constants names value → ∃ colon start behind id,
      Reading.names ts names (colon :: start :: behind) ∧
        s.HoldsConstant t.location start.location value id

theorem Notes.grown {s s' : Store} {t : Token} {ts : List Token} (h : Notes s t ts)
    (more : s.Grown s') : Notes s' t ts := by
  obtain ⟨declaration, rest, hread, h⟩ := h
  refine ⟨declaration, rest, hread, fun names value heq => ?_⟩
  obtain ⟨colon, start, behind, id, hnames, first, type, literal, hid, hliteral⟩ :=
    h names value heq
  exact ⟨colon, start, behind, id, hnames, first, type, literal, more.kept _ _ hid,
    more.kept _ _ hliteral⟩

/-- A parser further on, whose store has grown and holds what was declared on the way. -/
structure Passed (p p' : Parser) : Prop where
  onward : p.Onward p'
  grown : p.store.Grown p'.store
  noted : ∀ t ts, t.kind = .varWord → t :: ts <:+ p.tokens → p'.tokens <:+ ts → Notes p'.store t ts

/-- Nothing is declared where no token is taken. -/
theorem Passed.still {p' : Parser} (htokens : p'.tokens = p.tokens) (hdepth : p.depth ≤ p'.depth)
    (hgrown : p.store.Grown p'.store) : p.Passed p' := by
  refine ⟨⟨htokens ▸ suffix_refl _, hdepth⟩, hgrown, fun t ts _ h h' => ?_⟩
  have hlength : ts.length + 1 ≤ ts.length := Nat.le_trans h.length_le (htokens ▸ h').length_le
  omega

theorem Passed.trans {p1 p2 : Parser} (h : p.Passed p1) (h' : p1.Passed p2) : p.Passed p2 := by
  refine ⟨h.onward.trans h'.onward, h.grown.trans h'.grown, fun t ts ht hts hrest => ?_⟩
  rcases suffix_or_suffix_of_suffix hts h.onward.1 with hsecond | hfirst
  · exact h'.noted t ts ht hsecond hrest
  · rcases suffix_cons_iff.1 hfirst with heq | hfirst
    · exact h'.noted t ts ht (heq ▸ suffix_refl _) hrest
    · exact (h.noted t ts ht hts hfirst).grown h'.grown

end Parser

namespace Parse

variable {x : Parse γ} {f : γ → Parse β} {p p1 : Parser}

theorem bind_ok {c : γ} (h : x p = .ok c p1) : (x >>= f) p = f c p1 := by
  show EStateM.bind x f p = _
  rw [EStateM.bind, h]

theorem bind_error {e : Error} (h : x p = .error e p1) : (x >>= f) p = .error e p1 := by
  show EStateM.bind x f p = _
  rw [EStateM.bind, h]

end Parse

/-- The action `x` follows the reading `R` and takes at least `k` tokens. -/
def Simulates (d l k : Nat) (p : Parser) (x : Parse β) (R : Reading α)
    (post : α → β → Parser → Prop) : Prop :=
  match x p with
  | .ok b p' => (p'.Ready d l ∧ p.Passed p') ∧ p'.remaining + k ≤ p.remaining ∧
      ∃ a, (∀ a' rest, R p.tokens a' rest ↔ a' = a ∧ rest = p'.tokens) ∧ post a b p'
  | .error _ p' => p.Onward p' ∧ ∀ a rest, ¬R p.tokens a rest

namespace Simulates

variable {d l k m : Nat} {p : Parser} {post : α → β → Parser → Prop}

theorem pure {a : α} {b : β} (hp : p.Ready d l) (h : post a b p) :
    Simulates d l 0 p (Pure.pure b) (Pure.pure a : Reading α) post :=
  ⟨⟨hp, .still rfl .refl (.refl _)⟩, .refl, a, fun _ _ => Iff.rfl, h⟩

theorem bind {x : Parse γ} {f : γ → Parse β} {R : Reading δ} {S : δ → Reading α}
    {mid : δ → γ → Parser → Prop} (hx : Simulates d l k p x R mid)
    (hf : ∀ a b p1, p1.Ready d l → mid a b p1 → Simulates d l (m - k) p1 (f b) (S a) post) :
    Simulates d l m p (x >>= f) (R >>= S) post := by
  unfold Simulates at hx ⊢
  cases hxp : x p with
  | error e p1 =>
    rw [hxp] at hx
    rw [bind_error hxp]
    refine ⟨hx.1, ?_⟩
    rintro a rest ⟨a', mid, hR, -⟩
    exact hx.2 a' mid hR
  | ok b p1 =>
    rw [hxp] at hx
    rw [bind_ok hxp]
    obtain ⟨⟨hp1, hpassed⟩, hk, a, hR, hmid⟩ := hx
    have h1 := hf a b p1 hp1 hmid
    -- the first part can be read in one way only, so only the second part is left
    have hS : ∀ c rest, (R >>= S) p.tokens c rest ↔ S a p1.tokens c rest := by
      intro c rest
      constructor
      · rintro ⟨a', mid, hR', hS'⟩
        obtain ⟨rfl, rfl⟩ := (hR a' mid).1 hR'
        exact hS'
      · exact fun hS' => ⟨a, p1.tokens, (hR a _).2 ⟨rfl, rfl⟩, hS'⟩
    unfold Simulates at h1
    cases hfb : f b p1 with
    | error e p2 =>
      rw [hfb] at h1
      exact ⟨hpassed.onward.trans h1.1, fun c rest h => h1.2 c rest ((hS c rest).1 h)⟩
    | ok c p2 =>
      rw [hfb] at h1
      obtain ⟨⟨hp2, hpassed'⟩, hk2, c', hread, hpost⟩ := h1
      exact ⟨⟨hp2, hpassed.trans hpassed'⟩, by omega, c',
        fun c'' rest => (hS c'' rest).trans (hread c'' rest), hpost⟩

/-- What is read can be wrapped up. -/
theorem mapRead {x : Parse β} {R : Reading δ} {g : δ → α} {mid : δ → β → Parser → Prop}
    (hx : Simulates d l k p x R mid) (h : ∀ a b p', mid a b p' → post (g a) b p') :
    Simulates d l k p x (R >>= fun a => Pure.pure (g a)) post := by
  unfold Simulates at hx ⊢
  cases hxp : x p with
  | error e p1 =>
    rw [hxp] at hx
    refine ⟨hx.1, ?_⟩
    rintro a rest ⟨a', mid, hR, -⟩
    exact hx.2 a' mid hR
  | ok b p1 =>
    rw [hxp] at hx
    obtain ⟨hp1, hk, a, hR, hmid⟩ := hx
    refine ⟨hp1, hk, g a, fun a' rest => ?_, h a b p1 hmid⟩
    constructor
    · rintro ⟨a'', mid, hR', rfl, rfl⟩
      obtain ⟨rfl, rfl⟩ := (hR a'' _).1 hR'
      exact ⟨rfl, rfl⟩
    · rintro ⟨rfl, rfl⟩
      exact ⟨a, p1.tokens, (hR a _).2 ⟨rfl, rfl⟩, rfl, rfl⟩

variable {mid : α → β → Parser → Prop}

/-- What is known after an action, from the tokens that it has taken and what they read. -/
theorem imp {x : Parse β} {R : Reading α}
    (hx : Simulates d l k p x R mid) (hm : m ≤ k) (h : ∀ a b p', p'.remaining + k ≤ p.remaining →
      R p.tokens a p'.tokens → mid a b p' → post a b p') : Simulates d l m p x R post := by
  unfold Simulates at hx ⊢
  cases hxp : x p with
  | error e p1 => rw [hxp] at hx; exact hx
  | ok b p1 =>
    rw [hxp] at hx
    obtain ⟨hp1, hk, a, hR, hmid⟩ := hx
    exact ⟨hp1, by omega, a, hR, h a b p1 hk ((hR a _).2 ⟨rfl, rfl⟩) hmid⟩

theorem mono {x : Parse β} {R : Reading α}
    (hx : Simulates d l k p x R mid) (hm : m ≤ k) (h : ∀ a b p', mid a b p' → post a b p') :
    Simulates d l m p x R post :=
  hx.imp hm fun a b p' _ _ => h a b p'

/-- The tokens that were taken are gone. -/
theorem used {x : Parse β} {R : Reading α} (hx : Simulates d l k p x R post) :
    Simulates d l k p x R fun a b p' => p'.remaining + k ≤ p.remaining ∧ post a b p' :=
  hx.imp .refl fun _ _ _ hk _ hpost => ⟨hk, hpost⟩

/-- What was taken can be read. -/
theorem reads {x : Parse β} {R : Reading α} (hx : Simulates d l k p x R post) :
    Simulates d l k p x R fun a b p' => R p.tokens a p'.tokens ∧ post a b p' :=
  hx.imp .refl fun _ _ _ _ hR hpost => ⟨hR, hpost⟩

/-- What an action returns can be wrapped up. -/
theorem map {x : Parse γ} {g : γ → β} {R : Reading α} {mid : α → γ → Parser → Prop}
    (hx : Simulates d l k p x R mid) (h : ∀ a b p', mid a b p' → post a (g b) p') :
    Simulates d l k p (g <$> x) R post := by
  have hrun : (g <$> x) p = EStateM.map g x p := rfl
  unfold Simulates at hx ⊢
  rw [hrun, EStateM.map]
  cases hxp : x p with
  | error e p1 => rw [hxp] at hx; exact hx
  | ok b p1 =>
    rw [hxp] at hx
    obtain ⟨hp1, hk, a, hR, hmid⟩ := hx
    exact ⟨hp1, hk, a, hR, h a b p1 hmid⟩

/-- Only what the reading makes of the tokens at hand counts. -/
theorem congr {x : Parse β} {R R' : Reading α} (h : R p.tokens = R' p.tokens)
    (hx : Simulates d l k p x R' post) : Simulates d l k p x R post := by
  unfold Simulates at hx ⊢
  rw [h]
  exact hx

variable {complaint : Parser → Error}

/-- An action that fails where there is nothing to read. -/
theorem fail {R : Reading α} (h : ∀ a rest, ¬R p.tokens a rest) :
    Simulates d l k p (fail complaint) R post := ⟨.refl p, h⟩

variable {y : Parse β}

/-- Only what the action does in the state at hand counts. -/
theorem ofRun {x : Parse β} {R : Reading α} (h : x p = y p)
    (hy : Simulates d l k p y R post) : Simulates d l k p x R post := by
  unfold Simulates at hy ⊢
  rw [h]
  exact hy

/-- Looking at the state reads nothing. -/
theorem look {view : Parse γ} {c : γ} {f : γ → Parse β} {R : Reading α}
    (hview : view p = .ok c p) (h : Simulates d l k p (f c) R post) :
    Simulates d l k p (view >>= f) R post := by
  unfold Simulates at h ⊢
  rw [bind_ok hview]
  exact h

/-- What comes after a choice can be taken out of its branches. -/
theorem bindIte {x : Parse TokenKind} {f g : Parse γ} {k : γ → Parse β} {R : Reading α}
    (h : Simulates d l m p ((do if (← x) = kind then f else g) >>= k) R post) :
    Simulates d l m p (do if (← x) = kind then f >>= k else g >>= k) R post := by
  refine .ofRun (congrFun ?_ p) h
  rw [bind_assoc]
  congr 1
  funext c
  split <;> rfl

variable {g : Token → Option δ}

/-- The current token, which has a value. If a declaration starts with it, the declaration has to be
in the store in the end. -/
theorem takeNoting {c : δ} {f : Token → Parse β} {S : δ → Reading α}
    (hp : p.Ready d l) (hc : g p.stream.current = some c)
    (hkind : p.stream.current.kind ≠ .endOfFile)
    (hf : ∀ p1, p1.Ready d l → p1.store = p.store → p.tokens = p.stream.current :: p1.tokens →
      Simulates d l (m - 1) p1 (f p.stream.current) (S c) fun a b p' => post a b p' ∧
        (p.stream.current.kind = .varWord → Parser.Notes p'.store p.stream.current p1.tokens)) :
    Simulates d l m p (advance >>= f) (one g >>= S) post := by
  obtain ⟨hp1, htokens⟩ := hp.advance hkind
  have hadvance : advance p = .ok p.stream.current { p with stream := p.stream.advance } := rfl
  have hrest := hf _ hp1 rfl htokens
  generalize hp1' : { p with stream := p.stream.advance } = p1 at hp1 htokens hadvance hrest
  have hstore : p1.store = p.store := hp1' ▸ rfl
  have hdepth : p1.depth = p.depth := hp1' ▸ rfl
  have honward : p.Onward p1 := ⟨htokens ▸ suffix_cons _ _, Nat.le_of_eq hdepth.symm⟩
  have hused : p1.remaining + 1 = p.remaining := by
    have hlength := congrArg length htokens
    exact (Nat.succ.inj hlength).symm
  have hread : (one g >>= S) p.tokens = S c p1.tokens := by
    funext a rest
    rw [htokens]
    refine propext ⟨?_, fun h => ⟨c, _, ⟨_, rfl, hc⟩, h⟩⟩
    rintro ⟨c', _, ⟨t, ht, hc'⟩, h⟩
    obtain ⟨rfl, rfl⟩ := cons.inj ht
    exact Option.some.inj (hc.symm.trans hc') ▸ h
  unfold Simulates at hrest ⊢
  rw [bind_ok hadvance, hread]
  cases hrun : f p.stream.current p1 with
  | error e p2 =>
    rw [hrun] at hrest
    exact ⟨honward.trans hrest.1, hrest.2⟩
  | ok b p2 =>
    rw [hrun] at hrest
    obtain ⟨⟨hp2, hpassed⟩, hk, a, hR, hpost, hnotes⟩ := hrest
    refine ⟨⟨hp2, honward.trans hpassed.onward, hstore ▸ hpassed.grown,
      fun t ts ht hts hrest => ?_⟩,
      by omega, a, hR, hpost⟩
    rcases suffix_cons_iff.1 (htokens ▸ hts) with heq | hts
    · obtain ⟨rfl, rfl⟩ := cons.inj heq
      exact hnotes ht
    · exact hpassed.noted t ts ht hts hrest

/-- The current token, which has a value. No declaration starts with it. -/
theorem take {c : δ} {f : Token → Parse β} {S : δ → Reading α}
    (hp : p.Ready d l) (hc : g p.stream.current = some c)
    (hkind : p.stream.current.kind ≠ .endOfFile ∧ p.stream.current.kind ≠ .varWord)
    (hf : ∀ p1, p1.Ready d l → p1.store = p.store →
      Simulates d l (m - 1) p1 (f p.stream.current) (S c) post) :
    Simulates d l m p (advance >>= f) (one g >>= S) post :=
  takeNoting hp hc hkind.1 fun p1 hp1 hs _ => (hf p1 hp1 hs).mono .refl
    fun _ _ _ h => ⟨h, fun hvar => absurd hvar hkind.2⟩

variable {S : Token → Reading α}

/-- The current token, whose kind is known. -/
theorem advance {f : Token → Parse β} (hp : p.Ready d l)
    (hk : p.stream.current.kind = kind) (hkind : kind ≠ .endOfFile ∧ kind ≠ .varWord)
    (hf : ∀ t p1, p1.Ready d l → p1.store = p.store → t.kind = kind →
      Simulates d l (m - 1) p1 (f t) (S t) post) :
    Simulates d l m p (advance >>= f) (token kind >>= S) post := by
  rw [token_eq_one]
  exact take hp (if_pos hk) (hk ▸ hkind) fun p1 hp1 hs => hf _ p1 hp1 hs hk

/-- A token of a kind. -/
theorem expectNoting {f : Token → Parse β}
    (hp : p.Ready d l) (hkind : kind ≠ .endOfFile)
    (hf : ∀ t p1, p1.Ready d l → p1.store = p.store → t.kind = kind → p.tokens = t :: p1.tokens →
      Simulates d l (m - 1) p1 (f t) (S t) fun a b p' => post a b p' ∧
        (kind = .varWord → Parser.Notes p'.store t p1.tokens)) :
    Simulates d l m p (Parse.expectOr kind complaint >>= f) (Reading.token kind >>= S) post := by
  by_cases hk : p.stream.current.kind = kind
  · have h : Simulates d l m p (Parse.advance >>= f) (Reading.token kind >>= S) post := by
      rw [Reading.token_eq_one]
      exact takeNoting hp (if_pos hk) (hk ▸ hkind) fun p1 hp1 hs htokens =>
        hk ▸ hf _ p1 hp1 hs hk htokens
    have hadvance : Parse.advance p =
        .ok p.stream.current { p with stream := p.stream.advance } := rfl
    have hexpect : Parse.expectOr kind complaint p = Parse.advance p := by
      rw [Parse.expectOr, if_pos hk]
    unfold Simulates at h ⊢
    rw [Parse.bind_ok (hexpect.trans hadvance)]
    rwa [Parse.bind_ok hadvance] at h
  · have hexpect : Parse.expectOr kind complaint p = .error (complaint p) p := by
      rw [Parse.expectOr, if_neg hk]
      rfl
    unfold Simulates
    rw [Parse.bind_error hexpect]
    refine ⟨.refl p, ?_⟩
    rintro a rest ⟨t, mid, ⟨htokens, hkind⟩, -⟩
    exact hk ((List.cons.inj htokens).1 ▸ hkind)

theorem expectOr {f : Token → Parse β}
    (hp : p.Ready d l) (hkind : kind ≠ .endOfFile ∧ kind ≠ .varWord)
    (hf : ∀ t p1, p1.Ready d l → p1.store = p.store → t.kind = kind →
      Simulates d l (m - 1) p1 (f t) (S t) post) :
    Simulates d l m p (expectOr kind complaint >>= f) (token kind >>= S) post :=
  expectNoting hp hkind.1 fun t p1 hp1 hs ht _ => (hf t p1 hp1 hs ht).mono .refl
    fun _ _ _ h => ⟨h, fun hvar => absurd hvar hkind.2⟩

/-- A token of a kind, if it is the current one. -/
theorem accept {f : Option Token → Parse β} {R S : Reading α}
    (hsome : p.stream.current.kind = kind →
      Simulates d l k p (Parse.advance >>= fun t => f (some t)) R post)
    (hnone : p.stream.current.kind ≠ kind → Simulates d l k p (f none) S post) :
    Simulates d l k p (Parse.accept? kind >>= f) (Reading.choose (· == kind) R S) post := by
  by_cases hk : p.stream.current.kind = kind
  · have hread : Reading.choose (· == kind) R S p.tokens = R p.tokens :=
      if_pos (beq_iff_eq.2 hk)
    have hadvance : Parse.advance p =
        .ok p.stream.current { p with stream := p.stream.advance } := rfl
    have haccept : Parse.accept? kind p =
        .ok (some p.stream.current) { p with stream := p.stream.advance } := by
      rw [Parse.accept?, if_pos hk]
    have h := (hsome hk).congr hread
    unfold Simulates at h ⊢
    rw [Parse.bind_ok haccept]
    rwa [Parse.bind_ok hadvance] at h
  · have hread : Reading.choose (· == kind) R S p.tokens = S p.tokens :=
      if_neg fun h => hk (beq_iff_eq.1 h)
    have haccept : Parse.accept? kind p = .ok none p := by rw [Parse.accept?, if_neg hk]
    exact .look haccept ((hnone hk).congr hread)

/-- Nothing is read while the tree is built. -/
theorem build {action : Build β} {a : α} (hp : p.Ready d l)
    (hgrown : p.store.Grown (action p.store).2)
    (h : post a (action p.store).1 { p with store := (action p.store).2 }) :
    Simulates d l 0 p (build action) (Pure.pure a : Reading α) post :=
  ⟨⟨⟨hp.tables, hp.depth, hp.limit, hp.closed⟩, .still rfl .refl hgrown⟩, .refl, a,
    fun _ _ => Iff.rfl, h⟩

theorem build_bind {action : Build γ} {f : γ → Parse β} {R : Reading α}
    (hgrown : p.store.Grown (action p.store).2)
    (h : Simulates d l k { p with store := (action p.store).2 } (f (action p.store).1) R post) :
    Simulates d l k p (Parse.build action >>= f) R post := by
  have hbuild : Parse.build action p =
      .ok (action p.store).1 { p with store := (action p.store).2 } := rfl
  unfold Simulates at h ⊢
  rw [Parse.bind_ok hbuild]
  generalize f (action p.store).1 { p with store := (action p.store).2 } = result at h ⊢
  cases result with
  | error e p1 => exact h
  | ok b p1 =>
    obtain ⟨⟨hp1, hpassed⟩, hread⟩ := h
    have hbuilt : p.Passed { p with store := (action p.store).2 } := .still rfl .refl hgrown
    exact ⟨⟨hp1, hbuilt.trans hpassed⟩, hread⟩

/-- A choice by the kind of the current token. -/
theorem choose {x : Parse β} {R S : Reading α} {f : TokenKind → Bool} (c : Bool)
    (hc : f p.stream.current.kind = c) (hx : c = true → Simulates d l k p x R post)
    (hy : c = false → Simulates d l k p y S post) :
    Simulates d l k p (if c then x else y) (Reading.choose f R S) post := by
  have hread : Reading.choose f R S p.tokens = if c then R p.tokens else S p.tokens := by
    rw [Reading.choose, ← hc]
    rfl
  cases c with
  | true => exact (hx rfl).congr hread
  | false => exact (hy rfl).congr hread

theorem chooseKind {x : Parse β} {R S : Reading α}
    (hx : p.stream.current.kind = kind → Simulates d l k p x R post)
    (hy : p.stream.current.kind ≠ kind → Simulates d l k p y S post) :
    Simulates d l k p (if p.stream.current.kind = kind then x else y)
      (Reading.choose (· == kind) R S) post := by
  by_cases hk : p.stream.current.kind = kind
  · rw [if_pos hk]
    exact (hx hk).congr (if_pos (beq_iff_eq.2 hk))
  · rw [if_neg hk]
    exact (hy hk).congr (if_neg fun h => hk (beq_iff_eq.1 h))

end Simulates

/-- The construct that was read has been added to the store. -/
def Builds (At : Store → Nat → NodeId → α → Prop) (p : Parser) (a : α) (id : NodeId)
    (p' : Parser) : Prop :=
  Adds At p.store a id p'.store

/-- The list that was read has been added to the store. -/
def BuildsList (At : Store → Nat → NodeId → α → Prop) (p : Parser) (as : List α)
    (head : Option NodeId) (p' : Parser) : Prop :=
  AddsList At p.store as head p'.store

/-! ### Lists -/

section Lists

variable {d l : Nat} {At : Store → Nat → NodeId → α → Prop} {more : TokenKind → Bool}
  {element : Parse NodeId} {R : Reading α}

section

variable (hAt : Local At)
  (elem : ∀ p, p.Ready d l → more p.stream.current.kind = true →
      Simulates d l 1 p element R (Builds At p))

include hAt elem

/-- A loop over elements. The list that is there already grows by what is read, and its first node
stays the first one. -/
theorem manyUpTo_simulates (n : Nat) {list : Option NodeId} {lo : Nat} {done : List α}
    (hp : p.Ready d l) (hn : p.remaining < n)
    (h : ListAt p.store (At p.store) lo p.store.size list done) :
    Simulates d l 0 p (manyUpTo more element n list) (Reading.Many more R)
      fun as head p' => (SameBelow lo p.store p'.store ∧
        ListAt p'.store (At p'.store) lo p'.store.size head (done ++ as)) ∧
        ∀ first, list = some first → head = some first := by
  induction n generalizing p list done with
  | zero => omega
  | succ n ih =>
    refine .look (c := p.stream.current.kind) rfl ?_
    cases hmore : more p.stream.current.kind with
    | false =>
      refine .congr (many_of_stop hmore) (.pure hp ⟨⟨SameBelow.refl _ _, ?_⟩, fun _ => id⟩)
      rw [append_nil]
      exact h
    | true =>
      refine .congr (many_of_next hmore) ?_
      refine (elem p hp hmore).used.bind fun a id p1 hp1 ha => .build_bind (.appendTo ..) ?_
      obtain ⟨hused, hadds⟩ := ha
      have hle : lo ≤ p.store.size := h.le fun _ _ _ _ => hAt.le
      obtain ⟨hsize, hsame, hlist⟩ := Build.appendTo_spec hAt h hadds
      have hp2 : Parser.Ready d l { p1 with store := (Build.appendTo list id p1.store).2 } :=
        ⟨hp1.tables, hp1.depth, hp1.limit, hp1.closed⟩
      refine (ih hp2 (by show p1.remaining < n; omega) (hsize.symm ▸ hlist)).mapRead ?_
      rintro as head p' ⟨⟨hsame', hlist'⟩, hhead⟩
      refine ⟨⟨((hadds.same.mono hle).trans hsame).trans hsame', ?_⟩, ?_⟩
      · rw [append_cons]
        exact hlist'
      · rintro first rfl
        exact hhead first rfl

/-- The list of all elements. -/
theorem many_simulates (hp : p.Ready d l) :
    Simulates d l 0 p (many more element none) (Reading.Many more R) (BuildsList At p) :=
  (manyUpTo_simulates hAt elem (p.remaining + 1) hp (Nat.lt_succ_self _) .nil).mono .refl
    fun _ _ _ ⟨⟨hsame, hlist⟩, _⟩ => ⟨hsame, hlist⟩

end

variable {separator : TokenKind}

/-- Elements with separators between them. -/
theorem separated_simulates (hAt : Local At) {first : Parse NodeId}
    (hseparator : separator ≠ .endOfFile ∧ separator ≠ .varWord)
    (hfirst : ∀ p, p.Ready d l → Simulates d l 1 p first R (Builds At p))
    (helement : ∀ p, p.Ready d l → Simulates d l 1 p element R (Builds At p)) (hp : p.Ready d l) :
    Simulates d l 1 p (separated separator first element) (separated separator R)
      fun as id p' => AddsList At p.store (as.1 :: as.2) (some id) p'.store := by
  refine (hfirst p hp).bind fun a id p1 hp1 hadds => ?_
  have elem : ∀ p, p.Ready d l → (p.stream.current.kind == separator) = true →
      Simulates d l 1 p (do let _ ← advance; element)
        (do let _ ← token separator; R) (Builds At p) := by
    intro p hp hk
    refine .advance hp (eq_of_beq hk) hseparator fun _ p1 hp1 hs _ => ?_
    refine (helement p1 hp1).mono (Nat.zero_le _) fun a id p' h => ?_
    rw [Builds, ← hs]
    exact h
  have hlist := AddsList.singleton hadds
  refine (manyUpTo_simulates hAt elem (p1.remaining + 1) hp1 (Nat.lt_succ_self _)
    hlist.layout).bind fun as head p2 hp2 has => ?_
  obtain ⟨⟨hsame, hlist'⟩, hhead⟩ := has
  exact .pure hp2 ⟨hadds.same.trans hsame, hhead id rfl ▸ hlist'⟩

/-- Elements with separators between them, as a list. -/
theorem some_separated_simulates (hAt : Local At)
    (hseparator : separator ≠ .endOfFile ∧ separator ≠ .varWord)
    (helement : ∀ p, p.Ready d l → Simulates d l 1 p element R (Builds At p)) (hp : p.Ready d l) :
    Simulates d l 1 p (some <$> separated separator element element)
      (do let as ← separated separator R; return as.1 :: as.2) (BuildsList At p) := by
  have h : Simulates d l 1 p (some <$> separated separator element element)
      (separated separator R)
      fun as head p' => AddsList At p.store (as.1 :: as.2) head p'.store :=
    (separated_simulates hAt hseparator helement helement hp).map fun _ _ _ h => h
  exact h.mapRead fun _ _ _ h => h

end Lists

end PLang
