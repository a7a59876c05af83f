import PLang.FrontEnd
import PLang.Proofs.Lexemes
import PLang.Proofs.Parsing.Program

/-!
# The stages of the front end

What checking a source comes to, by the stage that it gets to: the lexer, the parser or the checker.
-/

namespace PLang

variable {source : String} {ts : List Token} {options : CheckOptions} {diagnostics : Diagnostics}

/-- The lexer puts the end of the file behind its tokens. -/
theorem closeTokens_of_tokenize (h : tokenize source = .ok ts) : closeTokens ts = ts := by
  obtain ⟨body, last, rfl, hlast⟩ := tokenize_closed h
  exact closeTokens_of_closed hlast

variable {e : Error}

theorem checkSource_of_tokenize_error (h : tokenize source = .error e) :
    checkSource source options diagnostics = ⟨.error e, diagnostics, ""⟩ := by
  rw [checkSource, parseSource, h]

theorem checkSource_of_parse_error (h : tokenize source = .ok ts)
    (hparse : parseTokens ts options.limit = .error e) :
    checkSource source options diagnostics = ⟨.error e, diagnostics, ""⟩ := by
  rw [checkSource, parseSource, h]
  simp only [hparse]

theorem checkSource_of_visit_error {s : Store} {root : NodeId} {c : Checker}
    (h : tokenize source = .ok ts) (hparse : parseTokens ts options.limit = .ok (s, root))
    (hrun : Check.visit root (.start s .empty diagnostics options) = .error e c) :
    checkSource source options diagnostics = ⟨.error e, c.diagnostics, c.shown⟩ := by
  rw [checkSource, parseSource, h]
  simp only [hparse, hrun]

theorem checkSource_of_visit_ok {s : Store} {root : NodeId} {n : Nat} {c : Checker}
    (h : tokenize source = .ok ts) (hparse : parseTokens ts options.limit = .ok (s, root))
    (hrun : Check.visit root (.start s .empty diagnostics options) = .ok n c) :
    checkSource source options diagnostics = ⟨.ok ⟨c.store, root, n⟩, c.diagnostics, c.shown⟩ := by
  rw [checkSource, parseSource, h]
  simp only [hparse, hrun]

end PLang
