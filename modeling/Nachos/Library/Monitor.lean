import Mathlib.Data.List.Induction

/-!
# Monitors

A monitor reads a word letter by letter and may refuse the next letter. `run` feeds it a whole
word, `run_induction` is the induction rule over accepted words, and `PrecededBy` states the
order of letters in a word.
-/

namespace Nachos.Monitor

variable {σ α β : Type*}

/-- The state of the monitor after a word, if it accepts the word. -/
def run (next : σ → α → Option σ) (start : σ) (word : List α) : Option σ :=
  word.foldlM next start

variable {next : σ → α → Option σ} {word : List α} {P Q : α → Prop}

@[simp] theorem run_nil (start : σ) : run next start [] = some start := rfl

@[simp] theorem run_cons (start : σ) (a : α) (word : List α) :
    run next start (a :: word) = (next start a).bind fun s => run next s word := rfl

/-- A word in two parts. -/
theorem run_append (start : σ) (first second : List α) :
    run next start (first ++ second) =
      (run next start first).bind fun s => run next s second :=
  List.foldlM_append

/-- What every accepted letter preserves holds after every accepted word. -/
theorem run_induction {Inv : List α → σ → Prop} {start finish : σ}
    (hrun : run next start word = some finish) (hstart : Inv [] start)
    (hnext : ∀ w s a s', Inv w s → next s a = some s' → Inv (w ++ [a]) s') : Inv word finish := by
  induction word using List.reverseRecOn generalizing finish with
  | nil => exact Option.some.inj hrun ▸ hstart
  | append_singleton w a ih =>
    rw [run_append] at hrun
    obtain ⟨s, hs, hlast⟩ := Option.bind_eq_some_iff.mp hrun
    have ha : next s a = some finish := by simpa using hlast
    exact hnext w s a finish (ih hs) ha

/-- Every letter in `P` comes after some letter in `Q`. -/
def PrecededBy (P Q : α → Prop) (word : List α) : Prop :=
  ∀ before a after, word = before ++ a :: after → P a → ∃ b ∈ before, Q b

theorem precededBy_nil (P Q : α → Prop) : PrecededBy P Q [] := by
  intro before a after h
  simp at h

/-- The order of letters, one letter at a time. -/
theorem PrecededBy.snoc {a : α} (h : PrecededBy P Q word) (ha : P a → ∃ b ∈ word, Q b) :
    PrecededBy P Q (word ++ [a]) := by
  intro before x after heq hx
  rcases List.eq_nil_or_concat after with rfl | ⟨rest, y, rfl⟩
  · have hlast := List.append_inj' heq rfl
    obtain ⟨rfl, hax⟩ := hlast
    cases hax
    exact ha hx
  · rw [List.concat_eq_append, ← List.cons_append, ← List.append_assoc] at heq
    exact h before x rest (List.append_inj' heq rfl).1 hx

/-- The order of the letters that a filter reads off a word. -/
theorem PrecededBy.of_filterMap {f : β → Option α} {word : List β}
    (h : PrecededBy P Q (word.filterMap f)) :
    PrecededBy (fun e => ∃ a, f e = some a ∧ P a) (fun e => ∃ a, f e = some a ∧ Q a) word := by
  intro before e after heq he
  obtain ⟨a, hfe, ha⟩ := he
  obtain ⟨b, hb, hQ⟩ := h (before.filterMap f) a (after.filterMap f) (by simp [heq, hfe]) ha
  obtain ⟨e', he', hfe'⟩ := List.mem_filterMap.mp hb
  exact ⟨e', he', b, hfe', hQ⟩

end Nachos.Monitor
