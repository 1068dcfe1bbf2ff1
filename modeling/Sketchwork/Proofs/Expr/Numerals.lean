/-
  Sketchwork.Proofs.Expr.Numerals — which characters of a text are a number.

  Digits are taken as far as they go, then a point with digits on one side at least, then an
  exponent if it is whole. What was taken for a number is taken again before anything that
  begins as what follows it does, or that ends every token (`spanNumber_of_sequel`): nothing
  that may stand behind a number can become a part of it when the text is cut or spaced out.
-/
import Sketchwork.Expr.Lexer
import Sketchwork.Proofs.Text.Parts

namespace Sketchwork

namespace Lexer

variable {cs a b more : List Char}

/-! ## What may stand behind a token -/

/-- The characters that no token goes on with, whatever it is. -/
def endsToken (c : Char) : Bool :=
  isSpace c || c == ')'

/-- What may stand behind a token in place of `rest`: nothing, what ends every token, or what
    begins as `rest` does. -/
def Sequel (rest more : List Char) : Prop :=
  ∀ c ∈ more.head?, c ∈ rest.head? ∨ endsToken c = true

theorem Sequel.of_isPrefix (h : more <+: b) : Sequel b more :=
  fun c hc => .inl (Text.mem_head?_of_isPrefix h c hc)

theorem Sequel.append_left (h : Sequel b more) (a : List Char) : Sequel (a ++ b) (a ++ more) := by
  cases a with
  | nil => exact h
  | cons c a => exact fun d hd => .inl hd

/-- Something that ends every token, behind what follows one. -/
theorem Sequel.append_right (h : ∀ c ∈ more.head?, endsToken c = true) : Sequel b (b ++ more) := by
  cases b with
  | nil => exact fun c hc => .inr (h c hc)
  | cons c b => exact fun d hd => .inl hd

/-- A test that fails on what follows a token and on all that ends every token. -/
theorem Sequel.head {f : Char → Bool} (h : Sequel b more) (hb : ∀ c ∈ b.head?, f c = false)
    (hends : ∀ c, endsToken c = true → f c = false) : ∀ c ∈ more.head?, f c = false :=
  fun c hc => (h c hc).elim (hb c) (hends c)

theorem eq_of_endsToken {c : Char} (h : endsToken c = true) :
    c = ' ' ∨ c = '\t' ∨ c = '\r' ∨ c = '\n' ∨ c = ')' := by
  simp only [endsToken, isSpace, Bool.or_eq_true, beq_iff_eq] at h
  tauto

theorem isDigit_of_endsToken (c : Char) (h : endsToken c = true) : c.isDigit = false := by
  rcases eq_of_endsToken h with rfl | rfl | rfl | rfl | rfl <;> rfl

theorem gluesToNumber_of_endsToken (c : Char) (h : endsToken c = true) : gluesToNumber c = false := by
  rcases eq_of_endsToken h with rfl | rfl | rfl | rfl | rfl <;> decide

/-! ## Parts of a number -/

theorem isDigit_of_spanDigits (h : Decimal.spanDigits cs = (a, b)) : ∀ c ∈ a, c.isDigit = true := by
  cases h
  exact fun c hc => List.mem_takeWhile_imp hc

theorem spanDigits_of_sequel (h : Decimal.spanDigits cs = (a, b)) (hmore : Sequel b more) :
    Decimal.spanDigits (a ++ more) = (a, more) := by
  refine Decimal.spanDigits_exact (isDigit_of_spanDigits h) (hmore.head ?_ isDigit_of_endsToken)
  cases h
  exact fun c hc => Text.head?_dropWhile c hc

theorem spanMantissa_of_sequel (h : spanMantissa cs = (a, b)) (ha : a ≠ []) (hmore : Sequel b more) :
    spanMantissa (a ++ more) = (a, more) := by
  unfold spanMantissa at h
  generalize hwhole : Decimal.spanDigits cs = r at h
  obtain ⟨whole, rest⟩ := r
  dsimp only at h
  split at h
  · rename_i tail
    generalize hplaces : Decimal.spanDigits tail = r at h
    obtain ⟨places, rest⟩ := r
    dsimp only at h
    split at h
    · cases h
      exact absurd rfl ha
    · rename_i hsome
      cases h
      have hpoint : Decimal.spanDigits (whole ++ '.' :: (places ++ more)) = (whole, '.' :: (places ++ more)) := by
        refine Decimal.spanDigits_exact (isDigit_of_spanDigits hwhole) fun c hc => ?_
        cases hc
        rfl
      rw [List.append_assoc, List.cons_append, spanMantissa, hpoint]
      show (if (whole.isEmpty && (Decimal.spanDigits (places ++ more)).1.isEmpty) = true then _ else
        (whole ++ '.' :: (Decimal.spanDigits (places ++ more)).1, (Decimal.spanDigits (places ++ more)).2)) = _
      rw [spanDigits_of_sequel hplaces hmore, if_neg hsome]
  · rename_i hpoint
    cases h
    rw [spanMantissa, spanDigits_of_sequel hwhole hmore]
    dsimp only
    split
    · rcases hmore '.' rfl with hrest | hends
      · obtain ⟨tail, rfl⟩ := List.head?_eq_some_iff.mp hrest
        exact absurd rfl (hpoint tail)
      · cases hends
    · rfl

/-- The sign that stood in front of a text is found again in front of digits, and none where none was. -/
theorem sign_again {tail sign ds : List Char} (hsign : ((tail.take 1).filter fun c => c = '+' || c = '-') = sign)
    (hds : ∀ c ∈ ds, c.isDigit = true) (hne : ds ≠ []) :
    (((sign ++ ds ++ more).take 1).filter fun c => c = '+' || c = '-') = sign := by
  cases sign with
  | nil =>
    obtain ⟨d, ds, rfl⟩ := List.exists_cons_of_ne_nil hne
    have hd := hds d List.mem_cons_self
    have hplus : d ≠ '+' := by rintro rfl; cases hd
    have hminus : d ≠ '-' := by rintro rfl; cases hd
    simp [hplus, hminus]
  | cons s sign =>
    have hlength : ((tail.take 1).filter fun c => c = '+' || c = '-').length ≤ 1 :=
      Nat.le_trans (List.length_filter_le _ _) (List.length_take_le _ _)
    rw [hsign, List.length_cons] at hlength
    obtain rfl : sign = [] := List.length_eq_zero_iff.mp (by omega)
    have hs : s ∈ (tail.take 1).filter fun c => c = '+' || c = '-' := by
      rw [hsign]
      exact List.mem_cons_self
    have hs := (List.mem_filter.mp hs).2
    simp [hs]

theorem spanExponent_of_sequel (h : spanExponent cs = (a, b)) (ha : a ≠ []) (hmore : Sequel b more) :
    spanExponent (a ++ more) = (a, more) := by
  unfold spanExponent at h
  split at h
  · cases h
    exact absurd rfl ha
  · rename_i mark tail
    split at h
    · rename_i hmark
      dsimp only at h
      generalize hsign : ((tail.take 1).filter fun c => c = '+' || c = '-') = sign at h
      generalize hds : Decimal.spanDigits (tail.drop sign.length) = r at h
      obtain ⟨ds, rest⟩ := r
      dsimp only at h
      split at h
      · cases h
        exact absurd rfl ha
      · rename_i hsome
        cases h
        have hdrop : (sign ++ ds ++ more).drop sign.length = ds ++ more := by simp
        rw [List.cons_append, List.cons_append, spanExponent, if_pos hmark]
        dsimp only
        rw [sign_again hsign (isDigit_of_spanDigits hds) (by simpa using hsome), hdrop,
          spanDigits_of_sequel hds hmore]
        simp [hsome]
    · cases h
      exact absurd rfl ha

/-! ## Numbers -/

theorem spanNumber_of_not {c : Char} (hdigit : c.isDigit = false) (hpoint : c ≠ '.') (cs : List Char) :
    spanNumber (c :: cs) = ([], c :: cs) := by
  have hdigits : Decimal.spanDigits (c :: cs) = ([], c :: cs) := by
    simp [Decimal.spanDigits, hdigit]
  have hmantissa : spanMantissa (c :: cs) = ([], c :: cs) := by
    rw [spanMantissa, hdigits]
    dsimp only
    split
    · rename_i heq
      exact absurd (List.cons.inj heq).1 hpoint
    · rfl
  rw [spanNumber, hmantissa]
  rfl

/-- No exponent begins with a character that a number may stand before. -/
theorem spanExponent_of_not_glued (h : ∀ c ∈ cs.head?, gluesToNumber c = false) : spanExponent cs = ([], cs) := by
  cases cs with
  | nil => rfl
  | cons c cs =>
    have hc := h c rfl
    have hlower : c ≠ 'e' := by rintro rfl; exact absurd hc (by decide)
    have hupper : c ≠ 'E' := by rintro rfl; exact absurd hc (by decide)
    simp [spanExponent, hlower, hupper]

/-- A number that nothing is glued to is read from its characters before whatever begins as what
    follows it does. -/
theorem spanNumber_of_sequel (h : spanNumber cs = (a, b)) (ha : a ≠ [])
    (hglue : ∀ c ∈ b.head?, gluesToNumber c = false) (hmore : Sequel b more) : spanNumber (a ++ more) = (a, more) := by
  unfold spanNumber at h
  generalize hmantissa : spanMantissa cs = r at h
  obtain ⟨mantissa, rest⟩ := r
  dsimp only at h
  split at h
  · cases h
    exact absurd rfl ha
  · rename_i hsome
    have hne : mantissa ≠ [] := by simpa using hsome
    generalize hexponent : spanExponent rest = r at h
    obtain ⟨exponent, behind⟩ := r
    obtain ⟨rfl, rfl⟩ := Prod.mk.inj h
    have hrest : exponent ++ behind = rest := by
      have happend := spanExponent_append rest
      rwa [hexponent] at happend
    have hfront : Sequel rest (exponent ++ more) := hrest ▸ hmore.append_left exponent
    have hexponent' : spanExponent (exponent ++ more) = (exponent, more) := by
      cases exponent with
      | nil => exact spanExponent_of_not_glued (hmore.head hglue gluesToNumber_of_endsToken)
      | cons c exponent => exact spanExponent_of_sequel hexponent (List.cons_ne_nil _ _) hmore
    rw [List.append_assoc, spanNumber, spanMantissa_of_sequel hmantissa hne hfront]
    simp [hsome, hexponent']

/-- What begins with no number begins with none before whatever begins as what follows it does. -/
theorem spanNumber_eq_nil_of_sequel (h : (spanNumber (a ++ b)).1 = []) (ha : a ≠ []) (hmore : Sequel b more) :
    (spanNumber (a ++ more)).1 = [] := by
  cases a with
  | nil => exact absurd rfl ha
  | cons c a =>
    have hbehind := hmore.append_left a
    rw [List.cons_append]
    generalize a ++ more = more at hbehind ⊢
    by_cases hdigit : c.isDigit = true
    · have hmantissa : (spanMantissa (c :: (a ++ b))).1 ≠ [] := by
        unfold spanMantissa Decimal.spanDigits
        dsimp only
        split <;> simp [hdigit]
      rw [List.cons_append, spanNumber] at h
      dsimp only at h
      split at h
      · rename_i hnil
        exact absurd (List.isEmpty_iff.mp hnil) hmantissa
      · exact absurd (List.append_eq_nil_iff.mp h).1 hmantissa
    by_cases hpoint : c = '.'
    · subst hpoint
      have hplaces : ∀ d ∈ more.head?, d.isDigit = false := by
        refine hbehind.head (fun d hd => ?_) isDigit_of_endsToken
        obtain ⟨rest, hrest⟩ := List.head?_eq_some_iff.mp hd
        rw [← Bool.not_eq_true]
        intro hd
        simp [spanNumber, spanMantissa, Decimal.spanDigits, hrest, hd] at h
      have hdigits : Decimal.spanDigits ('.' :: more) = ([], '.' :: more) := by simp [Decimal.spanDigits]
      have hnone : Decimal.spanDigits more = ([], more) :=
        Decimal.spanDigits_exact (fun _ hc => absurd hc List.not_mem_nil) hplaces
      simp [spanNumber, spanMantissa, hdigits, hnone]
    · rw [spanNumber_of_not (Bool.not_eq_true _ ▸ hdigit) hpoint]

/-! ## Spaces -/

theorem not_space_of_isDigit {c : Char} (h : c.isDigit = true) : c ≠ ' ' := by
  rintro rfl
  cases h

theorem spanMantissa_no_space : ' ' ∉ (spanMantissa cs).1 := by
  have hdigits (cs : List Char) : ' ' ∉ (Decimal.spanDigits cs).1 :=
    fun hmem => not_space_of_isDigit (isDigit_of_spanDigits rfl ' ' hmem) rfl
  unfold spanMantissa
  dsimp only
  split
  · split
    · exact List.not_mem_nil
    · simp [hdigits]
  · exact hdigits cs

theorem spanExponent_no_space : ' ' ∉ (spanExponent cs).1 := by
  unfold spanExponent
  split
  · exact List.not_mem_nil
  · rename_i mark tail
    split
    · rename_i hmark
      dsimp only
      split
      · exact List.not_mem_nil
      · have hmark' : ' ' ≠ mark := by rintro rfl; cases hmark
        have hdigits : ' ' ∉ (Decimal.spanDigits (tail.drop
            ((tail.take 1).filter fun c => c = '+' || c = '-').length)).1 :=
          fun hmem => not_space_of_isDigit (isDigit_of_spanDigits rfl ' ' hmem) rfl
        simp [hmark', hdigits]
    · exact List.not_mem_nil

theorem spanNumber_no_space : ' ' ∉ (spanNumber cs).1 := by
  unfold spanNumber
  dsimp only
  split
  · exact List.not_mem_nil
  · exact fun hmem => (List.mem_append.mp hmem).elim spanMantissa_no_space spanExponent_no_space

end Lexer

end Sketchwork
