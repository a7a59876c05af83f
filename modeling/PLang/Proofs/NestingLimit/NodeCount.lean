import PLang.Proofs.Parsing.Program

/-!
# A tree has at most two nodes for each token

Every piece of syntax takes up at most two nodes for each token that spells it. The tightest cases
are literals and variables, which are one token and take two nodes, and the parameters of a
function, whose types are copied once for each name.
-/

namespace PLang

open Syntax

variable {head : Option NodeId} {hi lo root : Nat} {rest ts : List Token} {s : Store}

namespace Reading

variable {α β : Type}

/-- What is read takes up at most two nodes for each token that it was read from. -/
def Thrifty (R : Reading α) (At : Store → Nat → NodeId → α → Prop) : Prop :=
  ∀ ts a rest, R ts a rest → ∀ (s : Store) (lo root : Nat), At s lo root a →
    root + 1 + 2 * rest.length ≤ lo + 2 * ts.length

/-- The same for what is read as a list. -/
def ThriftyList (R : Reading (List α)) (At : Store → Nat → NodeId → α → Prop) : Prop :=
  ∀ ts as rest, R ts as rest → ∀ (s : Store) (lo hi : Nat) (head : Option NodeId),
    ListAt s (At s) lo hi head as → hi + 2 * rest.length ≤ lo + 2 * ts.length

variable {R : Reading α}

theorem choose_cases {p : TokenKind → Bool} {S : Reading α} {a : α} (h : choose p R S ts a rest) :
    R ts a rest ∨ S ts a rest := by
  unfold choose at h
  split at h
  · exact .inl h
  · exact .inr h

theorem callOr_cases {S : Reading α} {a : α} (h : callOr R S ts a rest) :
    R ts a rest ∨ S ts a rest := by
  unfold callOr at h
  split at h
  · exact .inl h
  · exact .inr h

/-! ### Lists -/

variable {At : Store → Nat → NodeId → α → Prop}

theorem many_thrifty {more : TokenKind → Bool} (hR : R.Thrifty At) :
    (Many more R).ThriftyList At := by
  intro ts as rest hread
  induction hread with
  | stop =>
    intro s lo hi head h
    cases h
    exact .refl
  | next _ hread _ ih =>
    intro s lo hi head h
    cases h with
    | cons hroot _ hlist =>
      have h1 := hR _ _ _ hread _ _ _ hroot
      have h2 := ih _ _ _ _ hlist
      omega

theorem separated_thrifty {separator : TokenKind} (hR : R.Thrifty At) :
    (do let as ← separated separator R; return as.1 :: as.2 : Reading (List α)).ThriftyList At := by
  have hnext : (do let _ ← token separator; R : Reading α).Thrifty At := by
    rintro ts a rest ⟨t, _, ⟨rfl, -⟩, hread⟩ s lo root h
    have := hR _ _ _ hread _ _ _ h
    simp only [List.length_cons]
    omega
  rintro ts _ rest ⟨_, _, ⟨a, _, hfirst, as, _, hothers, rfl, rfl⟩, rfl, rfl⟩ s lo hi head h
  cases h with
  | cons hroot _ hlist =>
    have h1 := hR _ _ _ hfirst _ _ _ hroot
    have h2 := many_thrifty hnext _ _ _ hothers _ _ _ _ hlist
    omega

/-! ### Types and declarations -/

theorem type_thrifty : type.Thrifty TypeAt := by
  have hdimension : dimension.Thrifty NumberAt := by
    rintro ts n rest ⟨_, _, ⟨rfl, -⟩, size, _, ⟨rfl, -⟩, n, _, ⟨-, rfl⟩, _, _, ⟨rfl, -⟩, rfl, rfl⟩
      s lo root ⟨rfl, -⟩
    simp only [List.length_cons]
    omega
  rintro ts t rest ⟨ds, mid, hds, scalar, _, ⟨t, rfl, -⟩, rfl, rfl⟩ s lo root ⟨head, hlist, -⟩
  have h := many_thrifty hdimension _ _ _ hds _ _ _ _ hlist
  simp only [List.length_cons] at h
  omega

/-- A list of names is spelled by at least as many tokens. -/
theorem names_length {ns : Names} (h : names ts ns rest) :
    ns.toList.length + rest.length ≤ ts.length := by
  obtain ⟨_, _, ⟨first, _, ⟨t, _, ⟨rfl, -⟩, rfl, rfl⟩, others, _, hothers, rfl, rfl⟩, rfl, rfl⟩ := h
  have hmany : ∀ ts (as : List String) rest,
      Many (· == .comma) (do
        let _ ← token .comma
        let t ← token .identifier
        return t.value) ts as rest → as.length + rest.length ≤ ts.length := by
    intro ts as rest hread
    induction hread with
    | stop => simp
    | next _ hread _ ih =>
      obtain ⟨_, _, ⟨rfl, -⟩, t, _, ⟨rfl, -⟩, rfl, rfl⟩ := hread
      simp only [List.length_cons]
      omega
  have := hmany _ _ _ hothers
  simp only [Names.toList, List.length_cons]
  omega

end Reading

/-- A list of single nodes takes up one node for each member. -/
theorem ListAt.stretch_eq {α : Type} {At : Nat → NodeId → α → Prop} {as : List α}
    (h : ListAt s At lo hi head as) (hAt : ∀ (lo root : Nat) a, At lo root a → root = lo) :
    hi = lo + as.length := by
  induction h with
  | nil => rfl
  | cons hroot _ _ ih =>
    obtain rfl := hAt _ _ _ hroot
    simp only [List.length_cons]
    omega

theorem ListAt.names_stretch {ns : List String} (h : ListAt s (NameAt s) lo hi head ns) :
    hi = lo + ns.length :=
  h.stretch_eq fun _ _ _ hname => hname.1

namespace Reading

theorem declared_thrifty {ns : Names} {d : Declaration} (hd : declared ns ts d rest)
    (h : DeclarationAt s lo root d) :
    root + 2 * rest.length ≤ lo + ns.toList.length + 1 + 2 * ts.length := by
  rcases choose_cases hd with ⟨t, _, ht, rfl, rfl⟩ | ⟨negative, mid, hminus, v, _,
    ⟨t, rfl, -⟩, rfl, rfl⟩
  · obtain ⟨first, mid, type, hnames, htype, -, rfl, -⟩ := h
    have h1 := hnames.names_stretch
    have h2 := type_thrifty _ _ _ ht _ _ _ htype
    omega
  · obtain ⟨first, literal, hnames, -, -, -, -, rfl, -⟩ := h
    have h1 := hnames.names_stretch
    have h2 : rest.length + 1 ≤ ts.length := by
      rcases choose_cases hminus with ⟨_, _, ⟨rfl, -⟩, -, rfl⟩ | ⟨-, rfl⟩
      · simp
      · simp
    omega

theorem declaration_thrifty : declaration.Thrifty DeclarationAt := by
  rintro ts _ rest ⟨_, _, ⟨rfl, -⟩, ns, _, hns, _, _, ⟨rfl, -⟩, d, _, hd, _, _, ⟨rfl, -⟩, rfl, rfl⟩
    s lo root h
  have h1 := names_length hns
  have h2 := declared_thrifty hd h
  simp only [List.length_cons] at *
  omega

/-- The declaration of parameters pays for the copies of their types as well. -/
theorem parameter_copies {q : Parameter} (h : parameter ts q rest) (hq : ParameterAt s lo root q) :
    root + 1 + q.names.toList.length + 2 * rest.length ≤ lo + 2 * ts.length := by
  obtain ⟨ns, _, hns, _, _, ⟨rfl, -⟩, t, _, ht, rfl, rfl⟩ := h
  obtain ⟨first, mid, type, hnames, htype, -, rfl, -⟩ := hq
  have h1 := hnames.names_stretch
  have h2 := names_length hns
  have h3 := type_thrifty _ _ _ ht _ _ _ htype
  simp only [List.length_cons] at *
  omega

theorem parameterTypes_cons (q : Parameter) (qs : List Parameter) :
    (parameterTypes (q :: qs)).length = q.names.toList.length + (parameterTypes qs).length := by
  simp [parameterTypes]

theorem parameters_copies {qs : List Parameter} (h : parameters ts qs rest)
    (hqs : ListAt s (ParameterAt s) lo hi head qs) :
    hi + (parameterTypes qs).length + 2 * rest.length ≤ lo + 2 * ts.length := by
  have hmany : ∀ ts qs rest,
      Many (· == .semicolon) (do let _ ← token .semicolon; parameter) ts qs rest →
      ∀ (lo hi : Nat) (head : Option NodeId), ListAt s (ParameterAt s) lo hi head qs →
        hi + (parameterTypes qs).length + 2 * rest.length ≤ lo + 2 * ts.length := by
    intro ts qs rest hread
    induction hread with
    | stop =>
      intro lo hi head h
      cases h
      exact .refl
    | next _ hread _ ih =>
      intro lo hi head h
      obtain ⟨_, _, ⟨rfl, -⟩, hq⟩ := hread
      cases h with
      | cons hroot _ hlist =>
        have h1 := parameter_copies hq hroot
        have h2 := ih _ _ _ hlist
        rw [parameterTypes_cons]
        simp only [List.length_cons]
        omega
  rcases choose_cases h with ⟨rfl, rfl⟩ |
    ⟨_, _, ⟨q, _, hq, qs, _, hothers, rfl, rfl⟩, rfl, rfl⟩
  · cases hqs
    exact .refl
  · cases hqs with
    | cons hroot _ hlist =>
      have h1 := parameter_copies hq hroot
      have h2 := hmany _ _ _ hothers _ _ _ hlist
      rw [parameterTypes_cons]
      dsimp only
      omega

end Reading

/-- What is nested takes up at most two nodes for each token. -/
structure Nesting.Thrifty (N : Nesting) : Prop where
  expression : ∀ power, (N.expression power).Thrifty ExprAt
  statement : N.statement.Thrifty StatementAt

namespace Reading

variable {N : Nesting} (hN : N.Thrifty)

include hN

/-! ### Expressions -/

/-- A variable leaves a node for the expression that wraps it. -/
theorem reference_spare {r : String × List Expr} (hr : reference N ts r rest)
    (h : ReferenceAt s lo root r) : root + 2 + 2 * rest.length ≤ lo + 2 * ts.length := by
  have hsubscript : (subscript N).Thrifty ExprAt := by
    rintro ts _ rest ⟨_, _, ⟨rfl, -⟩, e, _, he, _, _, ⟨rfl, -⟩, rfl, rfl⟩ s lo root h
    have := hN.expression _ _ _ _ he _ _ _ h
    simp only [List.length_cons] at *
    omega
  obtain ⟨_, _, ⟨rfl, -⟩, es, _, hes, rfl, rfl⟩ := hr
  obtain ⟨head, hlist, -⟩ := h
  have := many_thrifty hsubscript _ _ _ hes _ _ _ _ hlist
  simp only [List.length_cons]
  omega

/-- So does a call. -/
theorem call_spare {c : String × List Expr} (hc : call N ts c rest) (h : CallAt s lo root c) :
    root + 2 + 2 * rest.length ≤ lo + 2 * ts.length := by
  have harguments : (arguments N).ThriftyList ExprAt := by
    intro ts es rest h s lo hi head hlist
    rcases choose_cases h with ⟨rfl, rfl⟩ | h
    · cases hlist
      exact .refl
    · exact separated_thrifty (hN.expression _) _ _ _ h _ _ _ _ hlist
  obtain ⟨_, _, ⟨rfl, -⟩, _, _, ⟨rfl, -⟩, es, _, hes, _, _, ⟨rfl, -⟩, rfl, rfl⟩ := hc
  obtain ⟨head, hlist, -⟩ := h
  have := harguments _ _ _ hes _ _ _ _ hlist
  simp only [List.length_cons] at *
  omega

theorem symbol_thrifty : (symbol N).Thrifty ExprAt := by
  intro ts e rest hread s lo root h
  rcases callOr_cases hread with ⟨c, _, hc, rfl, rfl⟩ | ⟨r, _, hr, rfl, rfl⟩
  · cases h with
    | call hes hpart _ _ =>
      have := call_spare hN hc ⟨_, hes, hpart⟩
      omega
  · cases h with
    | reference hes hpart _ _ =>
      have := reference_spare hN hr ⟨_, hes, hpart⟩
      omega

theorem grouping_thrifty : (grouping N).Thrifty ExprAt := by
  rintro ts _ rest ⟨_, _, ⟨rfl, -⟩, e, _, he, _, _, ⟨rfl, -⟩, rfl, rfl⟩ s lo root h
  have := hN.expression _ _ _ _ he _ _ _ h
  simp only [List.length_cons] at *
  omega

theorem unary_thrifty (o : UnaryOperator) : (unary N o).Thrifty ExprAt := by
  rintro ts _ rest ⟨_, _, ⟨rfl, -⟩, e, _, he, rfl, rfl⟩ s lo root h
  cases h with
  | unary hpart _ _ =>
    have := hN.expression _ _ _ _ he _ _ _ hpart
    simp only [List.length_cons]
    omega

theorem operand_thrifty : (operand N).Thrifty ExprAt := by
  intro ts e rest hread s lo root h
  unfold operand at hread
  generalize headKind ts = kind at hread
  cases kind with
  | integer | real | string | trueWord | falseWord =>
    obtain ⟨v, _, ⟨t, rfl, -⟩, rfl, rfl⟩ := hread
    cases h
    simp only [List.length_cons]
    omega
  | identifier => exact symbol_thrifty hN _ _ _ hread _ _ _ h
  | openParen => exact grouping_thrifty hN _ _ _ hread _ _ _ h
  | dash => exact unary_thrifty hN _ _ _ _ hread _ _ _ h
  | notWord => exact unary_thrifty hN _ _ _ _ hread _ _ _ h
  | _ => cases hread

theorem operators_thrifty {power : BindingPower} {left e : Expr}
    (h : Operators N power left ts e rest) (he : ExprAt s lo root e) :
    ∃ mid : Nat, ExprAt s lo mid left ∧ root + 2 * rest.length ≤ mid + 2 * ts.length := by
  induction h generalizing root with
  | stop => exact ⟨root, he, .refl⟩
  | next _ _ hright _ ih =>
    obtain ⟨mid, hmid, hle⟩ := ih he
    cases hmid with
    | binary hl _ hr _ _ =>
      have := hN.expression _ _ _ _ hright _ _ _ hr
      refine ⟨_, hl, ?_⟩
      simp only [List.length_cons]
      omega

theorem expression_thrifty (power : BindingPower) : (expression N power).Thrifty ExprAt := by
  rintro ts e rest ⟨left, mid, hleft, hops⟩ s lo root h
  obtain ⟨r, hr, hle⟩ := operators_thrifty hN hops h
  have := operand_thrifty hN _ _ _ hleft _ _ _ hr
  omega

/-! ### Statements -/

theorem block_thrifty : (block N).Thrifty BlockAt := by
  rintro ts _ rest ⟨_, _, ⟨rfl, -⟩, ds, _, hds, ss, _, hss, _, _, ⟨rfl, -⟩, rfl, rfl⟩ s lo root h
  have hstatement : (blockStatement N).Thrifty StatementAt :=
    fun ts x rest hread => hN.statement ts x rest hread.2
  cases h with
  | mk hdeclarations hstatements _ =>
    have h1 := many_thrifty declaration_thrifty _ _ _ hds _ _ _ _ hdeclarations
    have h2 := many_thrifty hstatement _ _ _ hss _ _ _ _ hstatements
    simp only [List.length_cons] at *
    omega

theorem loopBody_thrifty : (loopBody N).Thrifty BlockAt := by
  rintro ts _ rest ⟨b, _, hb, _, _, ⟨rfl, -⟩, _, _, ⟨rfl, -⟩, rfl, rfl⟩ s lo root h
  have := block_thrifty hN _ _ _ hb _ _ _ h
  simp only [List.length_cons] at *
  omega

theorem print_thrifty : (print N).Thrifty StatementAt := by
  rintro ts _ rest ⟨_, _, ⟨rfl, -⟩, e, _, he, _, _, ⟨rfl, -⟩, rfl, rfl⟩ s lo root h
  cases h with
  | print hvalue _ _ =>
    have := hN.expression _ _ _ _ he _ _ _ hvalue
    simp only [List.length_cons] at *
    omega

theorem read_thrifty : (read N).Thrifty StatementAt := by
  rintro ts _ rest ⟨_, _, ⟨rfl, -⟩, r, _, hr, _, _, ⟨rfl, -⟩, rfl, rfl⟩ s lo root h
  cases h with
  | read htarget _ _ =>
    have := reference_spare hN hr htarget
    simp only [List.length_cons] at *
    omega

theorem elseBody_thrifty {b : Option Block} (h : elseBody N ts b rest)
    (hb : ListAt s (BlockAt s) lo hi head b.toList) :
    hi + 2 * rest.length ≤ lo + 2 * ts.length := by
  rcases choose_cases h with ⟨_, _, ⟨rfl, -⟩, b, _, hblock, rfl, rfl⟩ | ⟨rfl, rfl⟩
  · cases hb with
    | cons hroot _ hnil =>
      cases hnil
      have := block_thrifty hN _ _ _ hblock _ _ _ hroot
      simp only [List.length_cons]
      omega
  · cases hb
    exact .refl

theorem condition_thrifty : (condition N).Thrifty StatementAt := by
  rintro ts _ rest ⟨_, _, ⟨rfl, -⟩, e, _, he, _, _, ⟨rfl, -⟩, b, _, hb, b', _, hb', _, _,
    ⟨rfl, -⟩, _, _,
    ⟨rfl, -⟩, rfl, rfl⟩ s lo root h
  cases h with
  | condition hguard _ hthen _ helse _ =>
    have h1 := hN.expression _ _ _ _ he _ _ _ hguard
    have h2 := block_thrifty hN _ _ _ hb _ _ _ hthen
    have h3 := elseBody_thrifty hN hb' helse
    simp only [List.length_cons] at *
    omega

theorem whileLoop_thrifty : (whileLoop N).Thrifty StatementAt := by
  rintro ts _ rest ⟨_, _, ⟨rfl, -⟩, e, _, he, _, _, ⟨rfl, -⟩, b, _, hb, rfl, rfl⟩ s lo root h
  cases h with
  | whileLoop hguard _ hbody _ _ =>
    have h1 := hN.expression _ _ _ _ he _ _ _ hguard
    have h2 := loopBody_thrifty hN _ _ _ hb _ _ _ hbody
    simp only [List.length_cons] at *
    omega

theorem forLoop_thrifty : (forLoop N).Thrifty StatementAt := by
  rintro ts _ rest ⟨_, _, ⟨rfl, -⟩, _, _, ⟨rfl, -⟩, _, _, ⟨rfl, -⟩, _, _, ⟨rfl, -⟩, _, _, ⟨rfl, -⟩,
    _, _, ⟨rfl, -⟩, _, _, ⟨rfl, -⟩, b, _, hb, m, _, ⟨-, rfl⟩, n, _, ⟨-, rfl⟩, rfl, rfl⟩ s lo root h
  cases h with
  | forLoop hbody _ _ _ =>
    have := loopBody_thrifty hN _ _ _ hb _ _ _ hbody
    simp only [List.length_cons]
    omega

theorem returnValue_thrifty : (returnValue N).Thrifty StatementAt := by
  rintro ts _ rest ⟨_, _, ⟨rfl, -⟩, e, _, he, _, _, ⟨rfl, -⟩, rfl, rfl⟩ s lo root h
  cases h with
  | returnValue hvalue _ =>
    rcases choose_cases he with ⟨rfl, rfl⟩ | ⟨e, _, he, rfl, rfl⟩
    · cases hvalue
      simp only [List.length_cons]
      omega
    · cases hvalue with
      | cons hroot _ hnil =>
        cases hnil
        have := hN.expression _ _ _ _ he _ _ _ hroot
        simp only [List.length_cons] at *
        omega

theorem callStatement_thrifty : (callStatement N).Thrifty StatementAt := by
  rintro ts _ rest ⟨c, _, hc, _, _, ⟨rfl, -⟩, rfl, rfl⟩ s lo root h
  cases h with
  | call hcall =>
    have := call_spare hN hc hcall
    simp only [List.length_cons] at *
    omega

theorem assign_thrifty : (assign N).Thrifty StatementAt := by
  rintro ts _ rest ⟨r, _, hr, _, _, ⟨rfl, -⟩, e, _, he, _, _, ⟨rfl, -⟩, rfl, rfl⟩ s lo root h
  cases h with
  | assign htarget _ hvalue _ _ =>
    have h1 := reference_spare hN hr htarget
    have h2 := hN.expression _ _ _ _ he _ _ _ hvalue
    simp only [List.length_cons] at *
    omega

theorem statement_thrifty : (statement N).Thrifty StatementAt := by
  intro ts x rest hread s lo root h
  unfold statement at hread
  generalize headKind ts = kind at hread
  cases kind with
  | beginWord =>
    obtain ⟨b, _, hb, rfl, rfl⟩ := hread
    cases h with
    | block hblock => exact block_thrifty hN _ _ _ hb _ _ _ hblock
  | printWord => exact print_thrifty hN _ _ _ hread _ _ _ h
  | readWord => exact read_thrifty hN _ _ _ hread _ _ _ h
  | ifWord => exact condition_thrifty hN _ _ _ hread _ _ _ h
  | whileWord => exact whileLoop_thrifty hN _ _ _ hread _ _ _ h
  | forWord => exact forLoop_thrifty hN _ _ _ hread _ _ _ h
  | returnWord => exact returnValue_thrifty hN _ _ _ hread _ _ _ h
  | identifier =>
    rcases callOr_cases hread with hcall | hassign
    · exact callStatement_thrifty hN _ _ _ hcall _ _ _ h
    · exact assign_thrifty hN _ _ _ hassign _ _ _ h
  | _ => cases hread

/-! ### Functions and programs -/

theorem functionBody_thrifty {b : Option Block} (h : functionBody N ts b rest)
    (hb : ListAt s (BlockAt s) lo hi head b.toList) :
    hi + 1 + 2 * rest.length ≤ lo + 2 * ts.length := by
  rcases choose_cases h with ⟨_, _, ⟨rfl, -⟩, rfl, rfl⟩ | ⟨b, _, hblock, _, _, ⟨rfl, -⟩, rfl, rfl⟩
  · cases hb
    simp only [List.length_cons]
    omega
  · cases hb with
    | cons hroot _ hnil =>
      cases hnil
      have := block_thrifty hN _ _ _ hblock _ _ _ hroot
      simp only [List.length_cons] at this
      omega

omit hN in
theorem returnType_length {result : ScalarType} (h : returnType ts result rest) :
    rest.length ≤ ts.length := by
  rcases choose_cases h with ⟨_, _, ⟨rfl, -⟩, _, rfl, -⟩ | ⟨-, rfl⟩
  · simp only [List.length_cons]
    omega
  · exact .refl

theorem function_thrifty : (function N).Thrifty FunctionAt := by
  rintro ts _ rest ⟨_, _, ⟨rfl, -⟩, _, _, ⟨rfl, -⟩, qs, _, hqs, _, _, ⟨rfl, -⟩, result, _,
    hresult, b, _,
    hb, rfl, rfl⟩ s lo root ⟨mid, last, type, parameters, body, types, hps, hrest, -, -, hts, -⟩
  have h1 := parameters_copies hqs hps
  have h2 := hts.stretch_eq fun _ _ _ hcopy => hcopy.1
  have h3 := returnType_length hresult
  simp only [List.length_cons] at *
  cases hrest with
  | typed _ hbody =>
    have h4 := functionBody_thrifty hN hb hbody
    omega
  | untyped hbody =>
    have h4 := functionBody_thrifty hN hb hbody
    omega

theorem program_thrifty : (program N).Thrifty ProgramAt := by
  rintro ts _ rest ⟨_, _, ⟨rfl, -⟩, _, _, ⟨rfl, -⟩, ds, _, hds, fs, _, hfs, b, _, hb, _, _,
    ⟨rfl, -⟩, rfl,
    rfl⟩ s lo root ⟨mid, last, body, declarations, functions, hdeclarations, hfunctions,
      hbody, -, rfl, -⟩
  have h1 := many_thrifty declaration_thrifty _ _ _ hds _ _ _ _ hdeclarations
  have h2 := many_thrifty (function_thrifty hN) _ _ _ hfs _ _ _ _ hfunctions
  have h3 := block_thrifty hN _ _ _ hb _ _ _ hbody
  simp only [List.length_cons] at *
  omega

end Reading

theorem Nesting.upTo_thrifty (n : Nat) : (Nesting.upTo n).Thrifty := by
  induction n with
  | zero => exact ⟨fun _ _ _ _ h => h.elim, fun _ _ _ h => h.elim⟩
  | succ n ih => exact ⟨Reading.expression_thrifty ih, Reading.statement_thrifty ih⟩

/-- The tree of a program has at most two nodes for each token. -/
theorem size_le_of_parseTokens {limit : Nat} {store : Store} {root : NodeId}
    (h : parseTokens ts limit = .ok (store, root)) : store.size ≤ 2 * (closeTokens ts).length := by
  obtain ⟨P, hP, hlayout, hsize, -⟩ := parseTokens_layout h
  obtain ⟨rest, hread, -⟩ := (hP P).2 rfl
  have := Reading.program_thrifty (Nesting.upTo_thrifty limit) _ _ _ hread _ _ _ hlayout
  omega

end PLang
