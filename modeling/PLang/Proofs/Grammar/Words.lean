import PLang.Proofs.Grammar.Rules

/-!
# The words of the grammar

Every rule allows some word, so that what has been read of a sequence can always be completed. The
end of the file is in no word. A word is spelled by tokens whose numbers can be read.
-/

namespace PLang.Grammar

open Phrase

variable {r : Phrase} {w : List TokenKind}

/-! ### Something can be derived -/

/-- A phrase that allows something. -/
class Phrase.Productive (r : Phrase) : Prop where
  word : ∃ w, Derives r w

theorem derives_token (kind : TokenKind) : Derives (token kind) [kind] :=
  .oneOf (List.mem_singleton.2 rfl)

theorem derives_last (h : Derives r w) : Derives (sequence [r]) w := by
  have hcons := h.cons .nil
  rwa [List.append_nil] at hcons

theorem derives_type : Derives (name .type) [.integerWord] :=
  .name (.cons .stop (derives_last (.oneOf (by decide))))

theorem derives_atom (h : Derives atom w) : Derives (name .expression) w :=
  .name (.choice (by simp) h)

theorem derives_literal (h : Derives (oneOf literalKinds) w) : Derives (name .expression) w :=
  derives_atom (.choice (.tail _ (.head _)) h)

theorem derives_expression : Derives (name .expression) [.integer] :=
  derives_literal (.oneOf (by decide))

theorem derives_block : Derives (name .block) [.beginWord, .endWord] :=
  .name (.cons (derives_token _) (.cons .stop (.cons .stop (derives_last (derives_token _)))))

theorem derives_statement : Derives (name .statement) [.beginWord, .endWord] :=
  .name (.choice (.head _) derives_block)

namespace Phrase.Productive

variable {r : Phrase} {rs : List Phrase}

instance : (sequence []).Productive := ⟨[], .nil⟩

instance [hr : r.Productive] [hrs : (sequence rs).Productive] :
    (sequence (r :: rs)).Productive := by
  obtain ⟨v, hv⟩ := hr.word
  obtain ⟨w, hw⟩ := hrs.word
  exact ⟨v ++ w, hv.cons hw⟩

instance {kind : TokenKind} {kinds : List TokenKind} : (oneOf (kind :: kinds)).Productive :=
  ⟨[kind], .oneOf (.head _)⟩

instance {kind : TokenKind} : (token kind).Productive := ⟨[kind], derives_token kind⟩

instance [hr : r.Productive] : (choice (r :: rs)).Productive := by
  obtain ⟨w, hw⟩ := hr.word
  exact ⟨w, .choice (.head _) hw⟩

instance : (optional r).Productive := ⟨[], .none⟩

instance : (many r).Productive := ⟨[], .stop⟩

theorem ofRule {x : Name} (h : (rule x).Productive) : (name x).Productive := by
  obtain ⟨w, hw⟩ := h.word
  exact ⟨w, .name hw⟩

instance : (oneOf scalarKinds).Productive := inferInstanceAs (oneOf (_ :: _)).Productive

instance : (oneOf numberKinds).Productive := inferInstanceAs (oneOf (_ :: _)).Productive

instance : (name .names).Productive :=
  .ofRule (inferInstanceAs (sequence [token _, many _]).Productive)

instance : (name .type).Productive := ⟨_, derives_type⟩

instance : (name .parameter).Productive :=
  .ofRule (inferInstanceAs (sequence [name _, token _, name _]).Productive)

instance : (name .block).Productive := ⟨_, derives_block⟩

instance : (name .reference).Productive :=
  .ofRule (inferInstanceAs (sequence [token _, many _]).Productive)

instance : (name .expression).Productive := ⟨_, derives_expression⟩

end Phrase.Productive

/-! ### What words hold -/

mutual

/-- Whether a phrase asks for a token of a kind, apart from the rules that it names. -/
def Phrase.mentions (kind : TokenKind) : Phrase → Bool
  | .oneOf kinds => kinds.contains kind
  | .name _ => false
  | .sequence rs => Phrase.mentionsAny kind rs
  | .choice rs => Phrase.mentionsAny kind rs
  | .optional r => r.mentions kind
  | .many r => r.mentions kind

/-- Whether one of several phrases asks for a token of a kind. -/
def Phrase.mentionsAny (kind : TokenKind) : List Phrase → Bool
  | [] => false
  | r :: rs => r.mentions kind || Phrase.mentionsAny kind rs

end

theorem mentions_of_mem {kind : TokenKind} {rs : List Phrase} (hr : r ∈ rs)
    (h : Phrase.mentionsAny kind rs = false) : r.mentions kind = false := by
  induction rs with
  | nil => cases hr
  | cons s rs ih =>
    rw [Phrase.mentionsAny, Bool.or_eq_false_iff] at h
    cases hr with
    | head => exact h.1
    | tail _ hr => exact ih hr h.2

/-- A kind that no rule asks for is in no word. -/
theorem Derives.not_mem {kind : TokenKind} (hrules : ∀ x, (rule x).mentions kind = false)
    (h : Derives r w) (hr : r.mentions kind = false) : kind ∉ w := by
  induction h with
  | oneOf hk =>
    rw [Phrase.mentions] at hr
    intro hmem
    obtain rfl := List.mem_singleton.1 hmem
    simp [hk] at hr
  | name _ ih => exact ih (hrules _)
  | nil => exact List.not_mem_nil
  | cons _ _ ih ihs =>
    rw [Phrase.mentions, Phrase.mentionsAny, Bool.or_eq_false_iff] at hr
    simp only [List.mem_append, not_or]
    exact ⟨ih hr.1, ihs (by rw [Phrase.mentions]; exact hr.2)⟩
  | choice hmem _ ih =>
    rw [Phrase.mentions] at hr
    exact ih (mentions_of_mem hmem hr)
  | none => exact List.not_mem_nil
  | some _ ih =>
    rw [Phrase.mentions] at hr
    exact ih hr
  | stop => exact List.not_mem_nil
  | next _ _ ih ihs =>
    have hpart := hr
    rw [Phrase.mentions] at hpart
    simp only [List.mem_append, not_or]
    exact ⟨ih hpart, ihs hr⟩

/-- A program does not reach over the end of the file. -/
theorem endOfFile_not_mem (h : Derives (name .program) w) : .endOfFile ∉ w := by
  refine h.not_mem (fun x => ?_) rfl
  cases x <;> rfl

/-! ### Spelling a word -/

/-- A token of a kind whose number can be read, if it is one. -/
def spelling (kind : TokenKind) : Token := ⟨kind, "0", ⟨.nowhere, .nowhere⟩⟩

theorem readable_spelling (kind : TokenKind) : Readable (spelling kind) := by
  have hword : (wordOfText? "0").isSome := by decide +kernel
  have hreal : (Binary64.ofText? "0").isSome := by decide +kernel
  exact ⟨fun _ => hword, fun _ => hreal⟩

@[simp]
theorem map_kind_spelling (w : List TokenKind) : (w.map spelling).map Token.kind = w := by
  rw [List.map_map]
  exact List.map_id w

/-- What can be derived is covered by its spelling. -/
theorem covers_spelling (h : Derives r w) : r.Covers (w.map spelling) := by
  refine ⟨(map_kind_spelling w).symm ▸ h, ?_⟩
  simp only [List.forall_mem_map]
  exact fun kind _ => readable_spelling kind

end PLang.Grammar
