import PLang.Proofs.ErrorLocations
import PLang.Proofs.InStep.Program
import PLang.Proofs.NestingLimit.Checking
import PLang.Proofs.NestingLimit.NodeCount
import PLang.Proofs.Rechecking.Statements
import PLang.Proofs.Tree.WellFormed
import PLang.Proofs.ValidPrefix.EarliestError

/-!
# The nesting limit only cuts

A greater nesting limit changes nothing in what parsing and checking come to, unless the nesting is
too deep for the smaller one. The complaint then names that limit, and everything reported before it
is reported under the greater limit as well. Twice as many levels as there are tokens are always
enough.
-/

namespace PLang

variable {ρ α : Type} {d d' : Nat}

/-! ### Results under two limits -/

/-- What a result under the limit `d` and one under a limit that is not less have in common: all,
unless the first one is the complaint that the nesting is too deep. -/
structure CutAt (d : Nat) (error? : ρ → Option Error) (errors : ρ → List Error) (r r' : ρ) :
    Prop where
  same : (∀ e n, error? r = some e → e.cause ≠ .nestingTooDeep n) → r' = r
  deep : ∀ e n, error? r = some e → e.cause = .nestingTooDeep n →
    n = d ∧ errors r <+: errors r'

namespace CutAt

variable {error? : ρ → Option Error} {errors : ρ → List Error} {r r' : ρ} {e : Error}

/-- The same result, which does not name another limit. -/
theorem refl (h : ∀ e n, error? r = some e → e.cause = .nestingTooDeep n → n = d) :
    CutAt d error? errors r r :=
  ⟨fun _ => rfl, fun e n he hn => ⟨h e n he hn, List.prefix_rfl⟩⟩

theorem of_deep (he : error? r = some e) (hcause : e.cause = .nestingTooDeep d)
    (h : errors r <+: errors r') : CutAt d error? errors r r' := by
  refine ⟨fun hnot => absurd hcause (hnot e d he), fun e' n he' hn => ⟨?_, h⟩⟩
  cases he.symm.trans he'
  exact Cause.nestingTooDeep.inj (hn.symm.trans hcause)

end CutAt

/-- The error in place of a result. -/
def errorOf? : Except Error α → Option Error
  | .ok _ => none
  | .error e => some e

/-- The error that a check has ended with. -/
def Check.errorOf? : EStateM.Result Error Checker α → Option Error
  | .ok _ _ => none
  | .error e _ => some e

/-! ### Parsing -/

/-- A greater limit gives the same tree or the same error, or parsing goes too deep. -/
theorem parseTokens_mono (ts : List Token) (h : d ≤ d') :
    parseTokens ts d' = parseTokens ts d ∨
      ∃ e, parseTokens ts d = .error e ∧ e.cause = .nestingTooDeep d := by
  have hparses := parseTokens_inStep (C := ⟨Eq, d, d', h⟩)
    (List.forall₂_same.2 fun t (_ : t ∈ closeTokens ts) => ⟨rfl, rfl, rfl⟩)
  generalize hr : parseTokens ts d = r, hr' : parseTokens ts d' = r' at hparses
  cases hparses with
  | ok hs => exact .inl (by rw [hs.eq_of_eq])
  | error he => exact .inl (by rw [he.eq])
  | cut _ he => exact .inr ⟨_, rfl, he⟩

/-- The complaint that the nesting is too deep names the limit. There is a limit under which there
is no such complaint, so that this one is not left as it is. -/
theorem parseTokens_tooDeep {ts : List Token} {e : Error} {n : Nat}
    (h : parseTokens ts d = .error e) (he : e.cause = .nestingTooDeep n) : n = d := by
  rcases parseTokens_mono ts (Nat.le_max_left d (closeTokens ts).length) with hsame | ⟨e', h', he'⟩
  · exact absurd he (parseTokens_ne_tooDeep (Nat.le_max_right _ _) (hsame.trans h) n)
  · obtain rfl := Except.error.inj (h.symm.trans h')
    exact Cause.nestingTooDeep.inj (he.symm.trans he')

theorem parseTokens_cutAt (ts : List Token) (h : d ≤ d') :
    CutAt d errorOf? (fun _ => []) (parseTokens ts d) (parseTokens ts d') := by
  rcases parseTokens_mono ts h with hsame | ⟨e, hdeep, he⟩
  · rw [hsame]
    refine .refl fun e n he hn => ?_
    cases hr : parseTokens ts d with
    | ok tree => rw [hr] at he; cases he
    | error e' =>
      rw [hr] at he
      exact parseTokens_tooDeep hr (Option.some.inj he ▸ hn)
  · exact .of_deep (by rw [hdeep]; rfl) he List.prefix_rfl

/-! ### Checking -/

namespace Check

/-- How a check ends, whatever the limit was. -/
def unlimited : EStateM.Result Error Checker α → EStateM.Result Error Checker α :=
  endIn (Checker.withLimit · 0)

theorem reported_unlimited (r : EStateM.Result Error Checker α) :
    reported (unlimited r) = reported r := by
  cases r <;> rfl

theorem visit_cutAt (id : NodeId) (c : Checker) (h : d ≤ d') :
    CutAt d errorOf? reported (unlimited (visit id (c.withLimit d)))
      (unlimited (visit id (c.withLimit d'))) := by
  have hcut := visit_cut h id (c.withLimit d) rfl
  have hlimit : (c.withLimit d).withLimit d' = c.withLimit d' := rfl
  rw [hlimit] at hcut
  generalize visit id (c.withLimit d) = r, visit id (c.withLimit d') = r' at hcut
  cases hcut with
  | ok => exact .refl fun e n he => by cases he
  | deep he hr => exact .of_deep rfl he (by rwa [reported_unlimited, reported_unlimited])

end Check

/-! ### Whole sources -/

/-- The number of tokens of a source. -/
def tokenCount (source : String) : Nat := (tokensOf source).length

/-- The error that checking a source has ended with. -/
def CheckReport.error? (r : CheckReport) : Option Error := errorOf? r.outcome

/-- The errors that have been reported. -/
def CheckReport.errors (r : CheckReport) : List Error := r.diagnostics.errors

theorem checkSource_cutAt (source : String) (showSymbols : Bool) (diagnostics : Diagnostics)
    (h : d ≤ d') : CutAt d CheckReport.error? CheckReport.errors
      (checkSource source ⟨showSymbols, d⟩ diagnostics)
      (checkSource source ⟨showSymbols, d'⟩ diagnostics) := by
  cases hts : tokenize source with
  | error e =>
    rw [checkSource_of_tokenize_error hts, checkSource_of_tokenize_error hts]
    refine .refl fun e' n he hn => ?_
    cases he
    obtain ⟨token, htoken⟩ := tokenize_error hts
    cases hn.symm.trans htoken
  | ok ts =>
    rcases parseTokens_mono ts h with hsame | ⟨e, hdeep, he⟩
    · cases hparse : parseTokens ts d with
      | error e =>
        rw [checkSource_of_parse_error hts hparse,
          checkSource_of_parse_error hts (hsame.trans hparse)]
        refine .refl fun e' n he hn => ?_
        cases he
        exact parseTokens_tooDeep hparse hn
      | ok tree =>
        have hparse' := hsame.trans hparse
        have hcut := Check.visit_cut h tree.2
          (.start tree.1 .empty diagnostics ⟨showSymbols, d⟩) rfl
        generalize hrun : Check.visit tree.2 (.start tree.1 .empty diagnostics ⟨showSymbols, d⟩) = r
          at hcut
        generalize hrun' : Check.visit tree.2
          (Checker.withLimit (.start tree.1 .empty diagnostics ⟨showSymbols, d⟩) d') = r' at hcut
        cases hcut with
        | ok =>
          rw [checkSource_of_visit_ok hts hparse hrun, checkSource_of_visit_ok hts hparse' hrun']
          exact .refl fun e n he => by cases he
        | deep he hr =>
          rw [checkSource_of_visit_error hts hparse hrun]
          refine .of_deep rfl he ?_
          cases r' with
          | ok n c => rwa [checkSource_of_visit_ok hts hparse' hrun']
          | error e c => rwa [checkSource_of_visit_error hts hparse' hrun']
    · rw [checkSource_of_parse_error hts hdeep]
      obtain ⟨-, es, herrors, -⟩ := checkSource_errors source ⟨showSymbols, d'⟩ diagnostics
      exact .of_deep rfl he ⟨es, herrors.symm⟩

/-- Twice as many levels as there are tokens are enough: the parser has one for each token, and the
checker one for each node. -/
theorem checkSource_ne_tooDeep {source : String} {options : CheckOptions}
    {diagnostics : Diagnostics} {e : Error} (hlimit : 2 * tokenCount source ≤ options.limit)
    (he : (checkSource source options diagnostics).error? = some e) (n : Nat) :
    e.cause ≠ .nestingTooDeep n := by
  cases hts : tokenize source with
  | error e' =>
    rw [checkSource_of_tokenize_error hts] at he
    cases he
    obtain ⟨token, htoken⟩ := tokenize_error hts
    intro hn
    cases hn.symm.trans htoken
  | ok ts =>
    have hcount : tokenCount source = ts.length := by
      rw [tokenCount, tokensOf, hts]
      rfl
    have hclose := congrArg List.length (closeTokens_of_tokenize hts)
    cases hparse : parseTokens ts options.limit with
    | error e' =>
      rw [checkSource_of_parse_error hts hparse] at he
      cases he
      exact parseTokens_ne_tooDeep (by omega) hparse n
    | ok tree =>
      obtain ⟨P, -, hlayout, hsize, -⟩ := parseTokens_layout hparse
      obtain ⟨p, htree⟩ := hlayout.subtree
      have hroot : (tree.2 : Nat) < options.limit := calc
        tree.2 < tree.1.size := by rw [hsize]; exact Nat.lt_succ_self _
        _ ≤ 2 * (closeTokens ts).length := size_le_of_parseTokens hparse
        _ ≤ options.limit := by omega
      obtain ⟨count, c, hrun⟩ :=
        Check.visit_ok_of_lt (c := .start tree.1 .empty diagnostics options) htree rfl hroot
      rw [checkSource_of_visit_ok hts hparse hrun] at he
      cases he

/-- The nesting limit only cuts. Under a limit that is not less, a source, a list of tokens and any
node of any tree come to the same end, unless the nesting is too deep for the first limit: the
complaint then names it, and all that was reported is reported under the second limit first. No
limit of at least twice the number of tokens cuts. -/
theorem limit_only_cuts (h : d ≤ d') :
    (∀ (source : String) (showSymbols : Bool) (diagnostics : Diagnostics),
      CutAt d CheckReport.error? CheckReport.errors
        (checkSource source ⟨showSymbols, d⟩ diagnostics)
        (checkSource source ⟨showSymbols, d'⟩ diagnostics)) ∧
    (∀ ts : List Token, CutAt d errorOf? (fun _ => []) (parseTokens ts d) (parseTokens ts d')) ∧
    (∀ (root : NodeId) (c : Checker), CutAt d Check.errorOf? Check.reported
      (Check.unlimited (Check.visit root (c.withLimit d)))
      (Check.unlimited (Check.visit root (c.withLimit d')))) ∧
    ∀ (source : String) (options : CheckOptions) (diagnostics : Diagnostics) (e : Error) (n : Nat),
      2 * tokenCount source ≤ options.limit →
      (checkSource source options diagnostics).error? = some e → e.cause ≠ .nestingTooDeep n :=
  ⟨fun source showSymbols diagnostics => checkSource_cutAt source showSymbols diagnostics h,
    fun ts => parseTokens_cutAt ts h, fun root c => Check.visit_cutAt root c h,
    fun _ _ _ _ n hlimit he => checkSource_ne_tooDeep hlimit he n⟩

/-- A program with an error on both sides of a sum, which nests more deeply when it is checked than
when it is parsed. -/
def sumSource : String := "p;begin print x;print 1+1+1+1;print y;end end"

theorem limit_only_cuts_sumSource :
    (checkSource sumSource ⟨false, 5⟩ .silent).error?.map Error.cause = some (.nestingTooDeep 5) ∧
      (checkSource sumSource ⟨false, 5⟩ .silent).errors.length = 1 ∧
      (checkSource sumSource ⟨false, 9⟩ .silent).errors.length = 2 ∧
      (checkSource sumSource ⟨false, 5⟩ .silent).errors <+:
        (checkSource sumSource ⟨false, 9⟩ .silent).errors := by
  have hruns : (checkSource sumSource ⟨false, 5⟩ .silent).error?.map Error.cause =
        some (.nestingTooDeep 5) ∧
      (checkSource sumSource ⟨false, 5⟩ .silent).errors.length = 1 ∧
      (checkSource sumSource ⟨false, 9⟩ .silent).errors.length = 2 := by decide +kernel
  obtain ⟨e, he, hdeep⟩ := Option.map_eq_some_iff.1 hruns.1
  obtain ⟨hsource, -⟩ := limit_only_cuts (show 5 ≤ 9 by decide)
  exact ⟨hruns.1, hruns.2.1, hruns.2.2, ((hsource sumSource false .silent).deep e 5 he hdeep).2⟩

end PLang
