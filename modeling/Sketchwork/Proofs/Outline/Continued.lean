/-
  Sketchwork.Proofs.Outline.Continued — collections that go on over the next lines.

  Whether a line belongs to a collection is decided by a counter of brackets. It has a notion
  of quotes of its own and starts over on every line. Over a scalar that is `Steady` it passes
  without a change, so between tokens it is as deep as the tokens before. A collection is
  closed behind its last token and not before (`Unclosed`), and that is where the counter
  stops taking lines.

  Proved: a collection of steady scalars, broken anywhere between tokens, is read as the same
  tree as on one line, and the lines after it are left to the next reader (`lineValue_of_breaks`).
-/
import Sketchwork.Outline.Block
import Sketchwork.Proofs.Outline.Collections
import Sketchwork.Proofs.Outline.Lines

namespace Sketchwork.Written

open Text (isBlank width)

/-! ## How deep the brackets are -/

/-- The brackets that are open behind a token. -/
def Token.depth (d : Nat) : Token → Nat
  | opening _ => d + 1
  | closing _ => d - 1
  | comma | colon | word _ => d

def depth (d : Nat) (ts : List Token) : Nat :=
  ts.foldl Token.depth d

theorem depth_append (d : Nat) (a b : List Token) : depth d (a ++ b) = depth (depth d a) b :=
  List.foldl_append

/-- Tokens that close what they open and nothing else. -/
structure Balanced (ts : List Token) : Prop where
  total : ∀ d, depth d ts = d
  above : ∀ {d a b}, ts = a ++ b → d ≤ depth d a

namespace Balanced

variable {a b : List Token} {t : Token}

theorem nil : Balanced [] := by
  refine ⟨fun _ => rfl, ?_⟩
  intro d a b h
  obtain ⟨rfl, -⟩ := List.append_eq_nil_iff.mp h.symm
  exact Nat.le_refl d

theorem single (ht : ∀ d, t.depth d = d) : Balanced [t] := by
  refine ⟨ht, ?_⟩
  intro d a b h
  rcases List.singleton_eq_append_iff.mp h with ⟨rfl, -⟩ | ⟨rfl, -⟩
  · exact Nat.le_refl d
  · exact (ht d).ge

theorem append (ha : Balanced a) (hb : Balanced b) : Balanced (a ++ b) := by
  refine ⟨fun d => by rw [depth_append, ha.total, hb.total], ?_⟩
  intro d x y h
  rcases List.append_eq_append_iff.mp h with ⟨m, rfl, hm⟩ | ⟨m, rfl, hm⟩
  · rw [depth_append, ha.total]
    exact hb.above hm
  · exact ha.above rfl

theorem cons (ht : ∀ d, t.depth d = d) (hb : Balanced b) : Balanced (t :: b) :=
  (single ht).append hb

end Balanced

/-- Tokens of which the first opens a bracket that the last one closes. -/
structure Closes (ts : List Token) : Prop where
  total : ∀ d, depth d ts = d
  inside : ∀ {d a b}, ts = a ++ b → a ≠ [] → b ≠ [] → d < depth d a

namespace Closes

variable {ts : List Token}

theorem balanced (h : Closes ts) : Balanced ts := by
  refine ⟨h.total, ?_⟩
  intro d a b hab
  by_cases ha : a = []
  · subst ha
    exact Nat.le_refl d
  by_cases hb : b = []
  · rw [hb, List.append_nil] at hab
    subst hab
    exact (h.total d).ge
  · exact (h.inside hab ha hb).le

theorem of_balanced (h : Balanced ts) (b b' : Bracket) : Closes (.opening b :: (ts ++ [.closing b'])) := by
  refine ⟨fun d => ?_, ?_⟩
  · show depth (d + 1) (ts ++ [.closing b']) = d
    rw [depth_append, h.total]
    rfl
  · intro d x y hxy hx hy
    obtain ⟨t, x, rfl⟩ := List.exists_cons_of_ne_nil hx
    obtain ⟨rfl, htail⟩ := List.cons.inj hxy
    show d + 1 ≤ depth (d + 1) x
    rcases List.append_eq_append_iff.mp htail with ⟨m, rfl, hm⟩ | ⟨m, hm, -⟩
    · -- the last bracket stays behind, as something does
      rcases List.singleton_eq_append_iff.mp hm with ⟨rfl, -⟩ | ⟨-, rfl⟩
      · rw [List.append_nil, h.total]
      · exact absurd rfl hy
    · exact h.above hm

end Closes

theorem closes_ending {ts : List Token} (h : Balanced ts) (b : Bracket) (comma : Bool) :
    Closes (.opening b :: (ts ++ ending b comma)) := by
  cases comma with
  | false => exact .of_balanced h b b
  | true =>
    have h' := Closes.of_balanced (h.append (.single fun _ => rfl : Balanced [.comma])) b b
    rwa [List.append_assoc] at h'

mutual

theorem Collection.closes : ∀ c : Collection, Closes c.tokens
  | .emptyList comma => closes_ending .nil .square comma
  | .list items comma => closes_ending items.balanced .square comma
  | .emptyMap comma => closes_ending .nil .curly comma
  | .map fields comma => closes_ending fields.balanced .curly comma

theorem Tree.balanced : ∀ v : Tree, Balanced v.tokens
  | .word _ => .single fun _ => rfl
  | .collection c => c.closes.balanced

theorem Items.balanced : ∀ items : Items, Balanced items.tokens
  | .one item => item.balanced
  | .cons item more => item.balanced.append (.cons (fun _ => rfl) more.balanced)

theorem Field.balanced : ∀ field : Field, Balanced field.tokens
  | .bare _ => .cons (fun _ => rfl) (.single fun _ => rfl)
  | .given _ value => .cons (fun _ => rfl) (.cons (fun _ => rfl) value.balanced)

theorem Fields.balanced : ∀ fields : Fields, Balanced fields.tokens
  | .one field => field.balanced
  | .cons field more => field.balanced.append (.cons (fun _ => rfl) more.balanced)

end

/-! ## What stands before a scalar -/

/-- Before every scalar stands a bracket that opens, a comma or a colon. -/
def Separated : Bool → List Token → Prop
  | _, [] => True
  | separated, .word _ :: ts => separated = true ∧ Separated false ts
  | _, .closing _ :: ts => Separated false ts
  | _, _ :: ts => Separated true ts

namespace Separated

variable {separated : Bool} {a b ts : List Token}

theorem mono (h : Separated false ts) : Separated separated ts := by
  cases ts with
  | nil => trivial
  | cons t ts =>
    cases t with
    | word w => exact absurd h.1 Bool.false_ne_true
    | opening | closing | comma | colon => exact h

theorem start (h : Separated separated ts) : Separated true ts := by
  cases separated with
  | false => exact h.mono
  | true => exact h

theorem of_append (h : Separated separated (a ++ b)) : Separated separated a ∧ Separated true b := by
  induction a generalizing separated with
  | nil => exact ⟨trivial, h.start⟩
  | cons t a ih =>
    cases t with
    | word w => exact ⟨⟨h.1, (ih h.2).1⟩, (ih h.2).2⟩
    | opening | closing | comma | colon => exact ih h

theorem ending {b : Bracket} {comma : Bool} (h : Separated false ts) : Separated separated (ending b comma ++ ts) := by
  cases comma with
  | false => exact h
  | true => exact h

end Separated

mutual

theorem Collection.separated : ∀ (c : Collection) {separated : Bool} {ts : List Token}, Separated false ts →
    Separated separated (c.tokens ++ ts)
  | .emptyList _, _, _, h => h.ending
  | .list items _, _, _, h => by
    rw [Collection.tokens, List.cons_append, List.append_assoc]
    exact items.separated h.ending
  | .emptyMap _, _, _, h => h.ending
  | .map fields _, _, _, h => by
    rw [Collection.tokens, List.cons_append, List.append_assoc]
    exact fields.separated h.ending

theorem Tree.separated : ∀ (v : Tree) {ts : List Token}, Separated false ts → Separated true (v.tokens ++ ts)
  | .word _, _, h => ⟨rfl, h⟩
  | .collection c, _, h => c.separated h

theorem Items.separated : ∀ (items : Items) {ts : List Token}, Separated false ts → Separated true (items.tokens ++ ts)
  | .one item, _, h => item.separated h
  | .cons item more, ts, h => by
    have hmore : Separated false (.comma :: (more.tokens ++ ts)) := more.separated h
    rw [Items.tokens, List.append_assoc]
    exact item.separated hmore

theorem Field.separated : ∀ (field : Field) {ts : List Token}, Separated false ts → Separated true (field.tokens ++ ts)
  | .bare _, _, h => ⟨rfl, h.mono⟩
  | .given _ value, _, h => ⟨rfl, value.separated h⟩

theorem Fields.separated : ∀ (fields : Fields) {ts : List Token}, Separated false ts → Separated true (fields.tokens ++ ts)
  | .one field, _, h => field.separated h
  | .cons field more, ts, h => by
    have hmore : Separated false (.comma :: (more.tokens ++ ts)) := more.separated h
    rw [Fields.tokens, List.append_assoc]
    exact field.separated hmore

end

/-! ## The counter of brackets -/

/-- In a quoted text the counter looks for the end of the text. -/
theorem depthAfter_quoted (d : Nat) (quote p c : Char) (r : List Char) :
    Flow.depthAfter d (some quote) p (c :: r) = Flow.depthAfter d (if c == quote then none else some quote) c r :=
  rfl

/-- Outside of quoted texts the counter looks for the beginning of one and for brackets. -/
theorem depthAfter_cons (d : Nat) (p c : Char) (r : List Char) :
    Flow.depthAfter d none p (c :: r) =
      if Flow.opensQuote p c then Flow.depthAfter d (some c) c r
      else if c == '[' || c == '\x7b' then Flow.depthAfter (d + 1) none c r
      else if c == ']' || c == '\x7d' then Flow.depthAfter (d - 1) none c r
      else Flow.depthAfter d none c r :=
  rfl

/-- The counter passes over a scalar with no change, as long as no letter or digit is before it. -/
def Steady (w : List Char) : Prop :=
  ∀ p, Text.isAlphanumeric p = false → ∃ q, ∀ d r, Flow.depthAfter d none p (w ++ r) = Flow.depthAfter d none q r

def Token.Steady : Token → Prop
  | word w => Written.Steady w.text
  | _ => True

/-- A doubled quote is seen as the end of one text and the beginning of the next. -/
theorem depthAfter_single (content : List Char) (d : Nat) (p : Char) (r : List Char) :
    Flow.depthAfter d (some '\'') p (content.flatMap singleChar ++ '\'' :: r) = Flow.depthAfter d none '\'' r := by
  induction content generalizing p with
  | nil => simp [depthAfter_quoted]
  | cons c content ih =>
    rw [List.flatMap_cons, List.append_assoc]
    by_cases hquote : c = '\''
    · have hopens : Flow.opensQuote '\'' '\'' = true := by decide
      subst hquote
      simp [singleChar, depthAfter_quoted, depthAfter_cons, hopens, ih]
    · simp [singleChar, depthAfter_quoted, hquote, ih]

theorem steady_single {isKey : Bool} (content : List Char) : Steady (Word.single content : Word isKey).text := by
  intro p hp
  refine ⟨'\'', fun d r => ?_⟩
  have hopens : Flow.opensQuote p '\'' = true := by simp [Flow.opensQuote, hp]
  have h := depthAfter_single content d '\'' r
  simp [Word.text, depthAfter_cons, hopens, h]

theorem depthAfter_double {chars : List Layout.Spelled} (h : .escaped .quote ∉ chars) (d : Nat) (p : Char) (r : List Char) :
    Flow.depthAfter d (some '"') p (chars.flatMap Layout.Spelled.text ++ '"' :: r) = Flow.depthAfter d none '"' r := by
  induction chars generalizing p with
  | nil => simp [depthAfter_quoted]
  | cons c chars ih =>
    obtain ⟨hc, hmore⟩ := not_or.mp (mt List.mem_cons.mpr h)
    rw [List.flatMap_cons, List.append_assoc]
    cases c with
    | raw c hquote _ _ => simp [Layout.Spelled.text, depthAfter_quoted, hquote, ih hmore]
    | escaped e =>
      have hmark : e.mark ≠ '"' := by
        cases e with
        | quote => exact absurd rfl hc
        | newline | return_ | tab | zero | backslash | apostrophe | slash => decide
      simp [Layout.Spelled.text, depthAfter_quoted, hmark, ih hmore]

/-- Between double quotes anything is passed over but an escaped quote. -/
theorem steady_double {isKey : Bool} {q : Layout.Quoted} (h : .escaped .quote ∉ q.chars) :
    Steady (Word.double q : Word isKey).text := by
  intro p hp
  refine ⟨'"', fun d r => ?_⟩
  have hopens : Flow.opensQuote p '"' = true := by simp [Flow.opensQuote, hp]
  have hrest := depthAfter_double h d '"' r
  simp [Word.text, Layout.Quoted.text, depthAfter_cons, hopens, hrest]

theorem steady_of_chars {w : List Char} (h : ∀ c ∈ w, c ∉ ['[', ']', '\x7b', '\x7d', '"', '\'']) : Steady w := by
  have hpass (p : Char) : ∃ q, ∀ d r, Flow.depthAfter d none p (w ++ r) = Flow.depthAfter d none q r := by
    induction w generalizing p with
    | nil => exact ⟨p, fun _ _ => rfl⟩
    | cons c w ih =>
      obtain ⟨hc, hmore⟩ := List.forall_mem_cons.mp h
      simp only [List.mem_cons, List.not_mem_nil, or_false, not_or] at hc
      obtain ⟨hopen, hclose, hopenMap, hcloseMap, hquote, happostrophe⟩ := hc
      obtain ⟨q, hq⟩ := ih hmore c
      refine ⟨q, fun d r => ?_⟩
      simp [depthAfter_cons, Flow.opensQuote, *]
  exact fun p _ => hpass p

theorem depthAfter_gap {gap : List Char} (hgap : IsGap gap) {p : Char} :
    ∃ q, (Text.isAlphanumeric p = false → Text.isAlphanumeric q = false) ∧
      ∀ d r, Flow.depthAfter d none p (gap ++ r) = Flow.depthAfter d none q r := by
  induction gap generalizing p with
  | nil => exact ⟨p, id, fun _ _ => rfl⟩
  | cons c gap ih =>
    obtain ⟨q, hq, hrest⟩ := ih (fun x hx => hgap x (List.mem_cons_of_mem _ hx)) (p := c)
    refine ⟨q, fun _ => hq ?_, fun d r => ?_⟩
    · rcases hgap c List.mem_cons_self with rfl | rfl <;> decide
    · rw [List.cons_append, ← hrest, depthAfter_cons]
      rcases hgap c List.mem_cons_self with rfl | rfl <;> simp [Flow.opensQuote]

/-- Over tokens the counter is as deep as they are. -/
theorem depthAfter_spaced {ts : List Token} {s : List Char} (hs : Spaced ts s) (hsteady : ∀ t ∈ ts, t.Steady)
    {separated : Bool} (hsep : Separated separated ts) {p : Char}
    (hp : separated = true → Text.isAlphanumeric p = false) (d : Nat) :
    Flow.depthAfter d none p s = depth d ts := by
  induction hs generalizing separated p d with
  | nil => rfl
  | @cons t ts gap s hgap _ ih =>
    obtain ⟨q, hq, hskip⟩ := depthAfter_gap hgap (p := p)
    have hmore := fun t ht => hsteady t (List.mem_cons_of_mem _ ht)
    rw [hskip]
    show _ = depth (t.depth d) ts
    cases t with
    | opening b =>
      rw [← ih hmore hsep (p := b.open_) (fun _ => by cases b <;> decide)]
      cases b <;> simp [Token.text, Bracket.open_, Token.depth, depthAfter_cons, Flow.opensQuote]
    | closing b =>
      rw [← ih hmore hsep (p := b.close) (fun h => absurd h Bool.false_ne_true)]
      cases b <;> simp [Token.text, Bracket.close, Token.depth, depthAfter_cons, Flow.opensQuote]
    | comma =>
      rw [← ih hmore hsep (p := ',') (fun _ => by decide)]
      simp [Token.text, Token.depth, depthAfter_cons, Flow.opensQuote]
    | colon =>
      rw [← ih hmore hsep (p := ':') (fun _ => by decide)]
      simp [Token.text, Token.depth, depthAfter_cons, Flow.opensQuote]
    | word w =>
      obtain ⟨q', hq'⟩ := hsteady (.word w) List.mem_cons_self q (hq (hp hsep.1))
      rw [← ih hmore hsep.2 (p := q') (fun h => absurd h Bool.false_ne_true)]
      exact hq' d s

/-! ## Lines that go on -/

/-- Lines that hold these tokens. Each is deeper than `indent` or begins with a bracket that closes. -/
inductive GoesOn (indent : Nat) : List Token → List Layout.Content → Prop
  | done : GoesOn indent [] []
  | line {l : Layout.Content} {ls : List Layout.Content} {a ts : List Token} (hne : a ≠ []) (hs : Spaced a l.text)
      (hfirst : Layout.Solid l.text) (hdeep : indent < l.indent ∨ ∃ b r, l.text = Bracket.close b :: r)
      (h : GoesOn indent ts ls) : GoesOn indent (a ++ ts) (l :: ls)

/-- A collection that begins with the text `first` on a line and goes on over `lines`. -/
inductive Breaks (indent : Nat) (c : Collection) : List Char → List Layout.Content → Prop
  | intro {a ts : List Token} {first : List Char} {lines : List Layout.Content} (hc : c.tokens = a ++ ts) (hne : a ≠ [])
      (hs : Spaced a first) (hfirst : Layout.Solid first) (h : GoesOn indent ts lines) : Breaks indent c first lines

/-- With `d` brackets open, these tokens close them all, and only the last one does. -/
structure Unclosed (d : Nat) (ts : List Token) : Prop where
  total : depth d ts = 0
  before : ∀ {a b}, ts = a ++ b → b ≠ [] → depth d a ≠ 0

theorem Unclosed.of_append {d : Nat} {a b : List Token} (h : Unclosed d (a ++ b)) : Unclosed (depth d a) b := by
  refine ⟨by rw [← depth_append, h.total], ?_⟩
  rintro x y rfl hy
  rw [← depth_append]
  exact h.before (List.append_assoc ..).symm hy

theorem Collection.unclosed (c : Collection) {a b : List Token} (h : c.tokens = a ++ b) (ha : a ≠ []) :
    Unclosed (depth 0 a) b := by
  refine ⟨by rw [← depth_append, ← h, c.closes.total], ?_⟩
  rintro x y rfl hy
  rw [← depth_append]
  have hinside := c.closes.inside (d := 0) (h.trans (List.append_assoc ..).symm) (by simp [ha]) hy
  omega

/-- A line that goes on is taken, with the gap in front of it as spaces. -/
theorem continuation_cons {indent depth stop : Nat} {l : Line} {rest : List Line} (hdepth : depth ≠ 0)
    (hdeep : indent < l.indent ∨ ∃ b r, l.text = Bracket.close b :: r) :
    Block.continuation indent depth stop (l :: rest) =
      let more := Block.continuation indent (Flow.depthAfter depth none ' ' l.text) l.stop rest
      (List.replicate (l.start - stop) ' ' ++ l.text ++ more.1, more.2) := by
  rw [Block.continuation]
  refine if_pos ?_
  rw [Bool.and_eq_true]
  refine ⟨by simpa using hdepth, ?_⟩
  rcases hdeep with h | ⟨b, r, h⟩
  · simp [h]
  · rw [h]
    cases b <;> simp [Bracket.close]

theorem continuation_zero (indent stop : Nat) (rest : List Line) :
    Block.continuation indent 0 stop rest = ([], rest) := by
  cases rest <;> rfl

/-- The lines of a collection that is still open are taken, and no others. -/
theorem continuation_goesOn {indent : Nat} {ts : List Token} {ls : List Line} (h : GoesOn indent ts (ls.map Layout.ofLine))
    (hsteady : ∀ t ∈ ts, t.Steady) (hsep : Separated true ts) {d : Nat} (hd : Unclosed d ts) (stop : Nat)
    (after : List Line) :
    ∃ more, Block.continuation indent d stop (ls ++ after) = (more, after) ∧ Spaced ts more := by
  generalize hls : ls.map Layout.ofLine = contents at h
  induction h generalizing ls d stop with
  | done =>
    obtain rfl : d = 0 := hd.total
    obtain rfl := List.map_eq_nil_iff.mp hls
    exact ⟨[], continuation_zero indent stop after, .nil⟩
  | @line content _ a ts hne hs hfirst hdeep _ ih =>
    obtain ⟨l, ls, rfl, rfl, hmap⟩ := List.map_eq_cons_iff.mp hls
    have hopen : d ≠ 0 := hd.before (a := []) rfl (by simp [hne])
    obtain ⟨hsepA, hsepTs⟩ := hsep.of_append
    have hcount : Flow.depthAfter d none ' ' l.text = depth d a :=
      depthAfter_spaced hs (fun t ht => hsteady t (List.mem_append_left _ ht)) hsepA (fun _ => by decide) d
    obtain ⟨more, hmore, hspaced⟩ := ih (fun t ht => hsteady t (List.mem_append_right _ ht)) hsepTs hd.of_append l.stop hmap
    refine ⟨List.replicate (l.start - stop) ' ' ++ l.text ++ more, ?_, ?_⟩
    · rw [List.cons_append, continuation_cons hopen hdeep, hcount, hmore]
    · exact (hs.gap (isGap_spaces _) hne).append hspaced

/-- A text that begins with a bracket goes on over the lines that the counter takes. -/
theorem lineValue_open {b : Bracket} {s more : List Char} {start indent : Nat} {rest after : List Line} {item : Item}
    (hmore : Block.continuation indent (Flow.depthAfter 0 none ' ' (b.open_ :: s)) (start + width (b.open_ :: s)) rest =
      (more, after))
    (hline : Flow.line ⟨start, b.open_ :: s ++ more⟩ = .ok item) :
    Block.lineValue (b.open_ :: s) start indent rest = ⟨item, after, Flow.repeatedKeys item⟩ := by
  generalize hd : Flow.depthAfter 0 none ' ' (b.open_ :: s) = d at hmore
  have hif : (if (true && d != 0) = true then Block.continuation indent d (start + width (b.open_ :: s)) rest
      else ([], rest)) = (more, after) := by
    rw [← hmore]
    cases d with
    | zero => exact (continuation_zero ..).symm
    | succ d => rfl
  unfold Block.lineValue
  cases b with
  | square =>
    dsimp only [Bracket.open_] at *
    simp only [hd, hif, hline]
  | curly =>
    dsimp only [Bracket.open_] at *
    simp only [hd, hif, hline]

/-- The text that a collection begins with begins with its bracket. -/
theorem Collection.exists_open (c : Collection) {a ts : List Token} (hc : c.tokens = a ++ ts) (hne : a ≠ [])
    {s : List Char} (hs : Spaced a s) (hfirst : Layout.Solid s) : ∃ b r, s = Bracket.open_ b :: r := by
  obtain ⟨b, hb⟩ : ∃ b, c.tokens.head? = some (.opening b) := by
    cases c with
    | emptyList | list => exact ⟨.square, rfl⟩
    | emptyMap | map => exact ⟨.curly, rfl⟩
  obtain ⟨t, a, rfl⟩ := List.exists_cons_of_ne_nil hne
  obtain rfl : t = .opening b := by simpa [hc] using hb
  obtain ⟨s', rfl, -⟩ := hs.exists_of_solid hfirst
  exact ⟨b, s', rfl⟩

/-- A collection of steady scalars is read as the same tree however it is broken between
    tokens, on one line or over many, and the lines after it are left. -/
theorem lineValue_of_breaks {c : Collection} (hsteady : ∀ t ∈ c.tokens, t.Steady) {indent : Nat} {first : List Char}
    {lines : List Line} (h : Breaks indent c first (lines.map Layout.ofLine)) (start : Nat) (after : List Line) :
    ∃ item, Block.lineValue first start indent (lines ++ after) = ⟨item, after, Flow.repeatedKeys item⟩ ∧
      item.literal = c.literal := by
  cases h with
  | @intro a ts _ _ hc hne hs hfirst h =>
    obtain ⟨b, r, rfl⟩ := c.exists_open hc hne hs hfirst
    obtain ⟨hsepA, hsepTs⟩ : Separated true a ∧ Separated true ts := by
      have hsep : Separated true (c.tokens ++ []) := c.separated trivial
      rw [List.append_nil, hc] at hsep
      exact hsep.of_append
    rw [hc] at hsteady
    have hcount : Flow.depthAfter 0 none ' ' (b.open_ :: r) = depth 0 a :=
      depthAfter_spaced hs (fun t ht => hsteady t (List.mem_append_left _ ht)) hsepA (fun _ => by decide) 0
    obtain ⟨more, hmore, hspaced⟩ := continuation_goesOn h (fun t ht => hsteady t (List.mem_append_right _ ht)) hsepTs
      (c.unclosed hc hne) (start + width (b.open_ :: r)) after
    obtain ⟨item, hline, hl⟩ := line_of_spaced (c := c) (hc ▸ hs.append hspaced)
      (hfirst.append (List.cons_ne_nil _ _) more) start
    exact ⟨item, lineValue_open (hcount ▸ hmore) hline, hl⟩

end Sketchwork.Written
