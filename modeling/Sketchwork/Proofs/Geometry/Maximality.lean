/-
  Sketchwork.Proofs.Geometry.Maximality — what is joined cannot be joined any further.

  Two points are apart (`Strand.Apart`) when they do not meet, that is to say, are not within the
  joining tolerance. Their distance is then above the tolerance, or it is no number, as between
  points at the same infinity (`Strand.apart_iff`). A strand is grown (`Strand.Grown`) when joining
  comes to it and has nothing to put to it: it is a loop, or no piece that is left fits.

  The loop looks only at the pieces that are left. What carries the law over to finished curves is
  where ends come from: the ends of an open joined curve are ends of pieces (`ends_of_join`), and
  every piece that a later curve is made of was tried, and did not fit, when an earlier open curve
  was finished.

  Proved: ends of different open curves are apart (`pairwise_join`), and so are the two ends of an open
  curve of more than two vertices (`apart_of_open`); every joined curve is what a grown strand is
  finished to (`exists_grown`); open curves that are apart stay as they are when joined
  (`join_of_apart`).
-/
import Sketchwork.Proofs.Geometry.Chains
import Sketchwork.Proofs.Geometry.Doubles

namespace Sketchwork

/-! ## Ends that are apart -/

namespace Strand

def Apart (p q : Position) : Prop :=
  ¬ p.distance q ≤ tolerance

/-- The first and the last vertex. -/
def ends (vertices : List Position) : List Position :=
  vertices.head?.toList ++ vertices.getLast?.toList

/-- No end of the one meets an end of the other. -/
def EndsApart (vertices vertices' : List Position) : Prop :=
  ∀ p ∈ ends vertices, ∀ q ∈ ends vertices', Apart p q

theorem apart_iff {p q : Position} : Apart p q ↔ tolerance < p.distance q ∨ (p.distance q).isNaN = true := by
  have htolerance : tolerance.isNaN = false := by decide
  rw [Apart, Real64.not_le_iff, htolerance]
  simp

theorem mem_ends {vertices : List Position} {p : Position} :
    p ∈ ends vertices ↔ vertices.head? = some p ∨ vertices.getLast? = some p := by
  rw [ends, List.mem_append, Option.mem_toList, Option.mem_toList]

/-- What does not meet is apart. -/
theorem meets_eq_false_iff {o o' : Option Position} :
    meets o o' = false ↔ ∀ p q, o = some p → o' = some q → Apart p q := by
  rw [← Bool.not_eq_true, meets_iff]
  constructor
  · intro h p q ho ho'
    exact fun hm => h ⟨p, q, ho, ho', hm⟩
  · rintro h ⟨p, q, ho, ho', hm⟩
    exact h p q ho ho' hm

variable {s t : Strand} {piece : Polycurve} {pieces rest : List Polycurve}

/-- A piece does not fit when its ends are apart from those of the strand. -/
theorem attach?_eq_none_iff : s.attach? piece = none ↔ EndsApart s.vertices piece.vertices := by
  have hnone : s.attach? piece = none ↔
      meets s.vertices.getLast? piece.vertices.head? = false ∧
      meets s.vertices.getLast? piece.vertices.getLast? = false ∧
      meets s.vertices.head? piece.vertices.getLast? = false ∧
      meets s.vertices.head? piece.vertices.head? = false := by
    unfold attach?
    dsimp only
    split
    · simp_all
    · split
      · simp_all
      · split
        · simp_all
        · split <;> simp_all
  rw [hnone]
  simp only [meets_eq_false_iff]
  constructor
  · rintro ⟨h₁, h₂, h₃, h₄⟩ p hp q hq
    rcases mem_ends.mp hp with hp | hp
    · rcases mem_ends.mp hq with hq | hq
      · exact h₄ p q hp hq
      · exact h₃ p q hp hq
    · rcases mem_ends.mp hq with hq | hq
      · exact h₁ p q hp hq
      · exact h₂ p q hp hq
  · intro h
    refine ⟨?_, ?_, ?_, ?_⟩ <;> intro p q hp hq <;>
      exact h p (mem_ends.mpr (by simp [hp])) q (mem_ends.mpr (by simp [hq]))

theorem extend?_eq_none_iff :
    s.extend? pieces = none ↔ ∀ piece ∈ pieces, EndsApart s.vertices piece.vertices := by
  induction pieces with
  | nil => simp [extend?]
  | cons piece pieces ih =>
    rw [extend?, List.forall_mem_cons, ← attach?_eq_none_iff, ← ih]
    cases s.attach? piece with
    | none => simp
    | some longer => simp

/-! ## Growing -/

theorem grow_of_isLoop (h : s.isLoop = true) (pieces : List Polycurve) : s.grow pieces = (s, pieces) := by
  rw [grow, if_pos h]

theorem grow_of_extend? (hopen : s.isLoop = false) (h : s.extend? pieces = some (t, rest)) :
    s.grow pieces = t.grow rest := by
  rw [grow, if_neg (by simp [hopen])]
  split
  · cases h.symm.trans ‹_›
  · cases h.symm.trans ‹_›
    rfl

theorem grow_of_extend?_eq_none (h : s.extend? pieces = none) : s.grow pieces = (s, pieces) := by
  rw [grow]
  split
  · rfl
  · split
    · rfl
    · cases h.symm.trans ‹_›

/-! ## Where ends come from -/

theorem mem_ends_append_tail {vs ws : List Position} {p : Position} (hvs : vs ≠ []) (h : p ∈ ends (vs ++ ws.tail)) :
    p ∈ ends vs ∨ p ∈ ends ws := by
  rw [mem_ends, List.head?_append_of_ne_nil _ hvs, List.getLast?_append, Option.or_eq_some_iff, List.getLast?_tail] at h
  rw [mem_ends, mem_ends]
  rcases h with h | h | ⟨-, h⟩
  · exact .inl (.inl h)
  · split at h
    · cases h
    · exact .inr (.inr h)
  · exact .inl (.inr h)

theorem mem_ends_dropLast_append {vs ws : List Position} {p : Position} (hvs : vs ≠ [])
    (h : p ∈ ends (ws.dropLast ++ vs)) : p ∈ ends vs ∨ p ∈ ends ws := by
  rw [mem_ends, List.getLast?_append_of_ne_nil _ hvs, List.head?_append, Option.or_eq_some_iff, List.head?_dropLast] at h
  rw [mem_ends, mem_ends]
  rcases h with (h | ⟨-, h⟩) | h
  · split at h
    · exact .inr (.inl h)
    · cases h
  · exact .inl (.inl h)
  · exact .inl (.inr h)

theorem ends_of_laid {laid : Laid} {p : Position} (h : p ∈ ends laid.vertices) : p ∈ ends laid.piece.vertices := by
  unfold Laid.vertices at h
  split at h
  · rw [mem_ends, List.head?_reverse, List.getLast?_reverse] at h
    exact mem_ends.mpr h.symm
  · exact h

theorem ends_of_attach? (h : s.attach? piece = some t) {p : Position} (hp : p ∈ ends t.vertices) :
    p ∈ ends s.vertices ∨ p ∈ ends piece.vertices := by
  have hne {q : Option Position} (h : meets s.vertices.getLast? q = true ∨ meets s.vertices.head? q = true) :
      s.vertices ≠ [] := by
    intro hnil
    rw [hnil] at h
    simp [meets] at h
  obtain ⟨backwards, ⟨hm, rfl⟩ | ⟨hm, rfl⟩⟩ := attach?_cases h
  · exact (mem_ends_append_tail (hne (.inl hm)) hp).imp_right ends_of_laid
  · exact (mem_ends_dropLast_append (hne (.inr hm)) hp).imp_right ends_of_laid

/-! ## Grown strands -/

/-- Joining `pieces` comes to the strand and has nothing to put to it. -/
def Grown (pieces : List Polycurve) (s : Strand) : Prop :=
  ∃ rest, Reached pieces s rest ∧ (s.isLoop = true ∨ s.extend? rest = none)

theorem Reached.exists_cons (h : Reached pieces s rest) : ∃ piece left, pieces = piece :: left := by
  induction h with
  | first => exact ⟨_, _, rfl⟩
  | longer _ _ _ ih | next _ _ ih => exact ih

/-- What comes up while the pieces that are left are joined comes up while all are. -/
theorem Reached.next_of {piece : Polycurve} (h : Reached (piece :: rest) t pieces) {first : List Polycurve}
    (hs : Reached first s (piece :: rest)) (hdone : s.isLoop = true ∨ s.extend? (piece :: rest) = none) :
    Reached first t pieces := by
  generalize hstart : piece :: rest = start at h
  induction h with
  | first =>
    cases hstart
    exact hs.next hdone
  | longer _ hloop hextend ih => exact (ih hstart).longer hloop hextend
  | next _ hdone ih => exact (ih hstart).next hdone

theorem Reached.grow (h : Reached pieces s rest) :
    Reached pieces (s.grow rest).1 (s.grow rest).2 ∧
      ((s.grow rest).1.isLoop = true ∨ (s.grow rest).1.extend? (s.grow rest).2 = none) := by
  fun_induction Strand.grow s rest with
  | case1 s rest hloop => exact ⟨h, .inl hloop⟩
  | case2 s rest _ hnone => exact ⟨h, .inr hnone⟩
  | case3 s rest hloop longer left hextend ih => exact ih (h.longer (Bool.eq_false_iff.mpr hloop) hextend)

/-- What is left is some of the pieces, and what the strand came to has their ends. -/
theorem grow_ends (s : Strand) (pieces : List Polycurve) :
    (∀ piece ∈ (s.grow pieces).2, piece ∈ pieces) ∧
      ∀ p ∈ ends (s.grow pieces).1.vertices, p ∈ ends s.vertices ∨ ∃ piece ∈ pieces, p ∈ ends piece.vertices := by
  fun_induction Strand.grow s pieces with
  | case1 | case2 => exact ⟨fun _ h => h, fun p hp => .inl hp⟩
  | case3 s pieces _ longer rest h ih =>
    obtain ⟨before, piece, after, rfl, rfl, -, hattach⟩ := exists_of_extend? h
    have hmem : ∀ q ∈ before ++ after, q ∈ before ++ piece :: after := by
      intro q hq
      rcases List.mem_append.mp hq with hq | hq <;> simp [hq]
    refine ⟨fun q hq => hmem q (ih.1 q hq), fun p hp => ?_⟩
    rcases ih.2 p hp with hp | ⟨q, hq, hp⟩
    · exact (ends_of_attach? hattach hp).imp_right fun hp => ⟨piece, by simp, hp⟩
    · exact .inr ⟨q, hmem q hq, hp⟩

/-- A strand is finished to a closed curve when its ends meet and it has more than two vertices; its
    last vertex is then dropped. -/
structure FinishedTo (s : Strand) (curve : Polycurve) : Prop where
  closed : curve.closed = true ↔ 2 < s.vertices.length ∧
    ∃ p q, s.vertices.head? = some p ∧ s.vertices.getLast? = some q ∧ p.distance q ≤ tolerance
  vertices : curve.vertices = if curve.closed then s.vertices.dropLast else s.vertices

theorem closed_finish (s : Strand) : s.finish.closed = s.isLoop := by
  unfold finish
  split
  · rename_i h
    rw [h]
    rfl
  · rename_i h
    rw [Bool.eq_false_iff.mpr h]
    rfl

theorem vertices_finish (s : Strand) : s.finish.vertices = if s.isLoop then s.vertices.dropLast else s.vertices := by
  unfold finish
  split <;> exact Polycurve.vertices_ofBulges _ _ _

/-- An open curve has the vertices of the strand. -/
theorem vertices_of_open (h : s.finish.closed = false) : s.finish.vertices = s.vertices := by
  rw [closed_finish] at h
  rw [vertices_finish, h]
  rfl

theorem finishedTo_finish (s : Strand) : s.FinishedTo s.finish where
  closed := by
    rw [closed_finish, isLoop, Bool.and_eq_true, decide_eq_true_eq, meets_iff]
  vertices := by
    rw [closed_finish, vertices_finish]

/-- An open curve is taken up again as the strand it was finished from. -/
theorem ofCurve_finish (hs : s.Aligned) (h : s.finish.closed = false) : ofCurve s.finish = s := by
  have hfinish : s.finish = .ofBulges s.vertices s.bulges false := by
    rw [closed_finish] at h
    unfold finish
    rw [h]
    rfl
  rw [hfinish, ofCurve, Polycurve.vertices_ofBulges]
  show (⟨s.vertices, ((Polycurve.cornersOf s.vertices s.bulges).map (·.bulge)).dropLast⟩ : Strand) = s
  rw [Polycurve.bulges_cornersOf_of_short hs.bulges, List.dropLast_concat]

end Strand

/-! ## Joined curves -/

namespace Polycurve

open Strand (Apart EndsApart ends Grown FinishedTo Reached)

variable {curve : Polycurve} {pieces : List Polycurve}

/-- The joined curves are what grown strands are finished to. -/
theorem exists_grown (pieces : List Polycurve) :
    ∃ strands : List Strand, (∀ s ∈ strands, Grown pieces s) ∧ join pieces = strands.map Strand.finish := by
  fun_induction join pieces with
  | case1 => exact ⟨[], List.forall_mem_nil _, rfl⟩
  | case2 piece pieces grown ih =>
    obtain ⟨strands, hgrown, hfinished⟩ := ih
    have hfirst : Reached (piece :: pieces) (.ofCurve piece) pieces := .first
    obtain ⟨hreached, hdone⟩ := hfirst.grow
    refine ⟨grown.1 :: strands, List.forall_mem_cons.mpr ⟨⟨grown.2, hreached, hdone⟩, ?_⟩, ?_⟩
    · intro s hs
      obtain ⟨rest, hrest, hend⟩ := hgrown s hs
      obtain ⟨next, left, hleft⟩ := hrest.exists_cons
      rw [hleft] at hrest
      exact ⟨rest, hrest.next_of (hleft ▸ hreached) (hleft ▸ hdone), hend⟩
    · rw [hfinished, List.map_cons]

/-- The ends of an open joined curve are ends of pieces. -/
theorem ends_of_join (hc : curve ∈ join pieces) (ho : curve.closed = false) {p : Position}
    (hp : p ∈ ends curve.vertices) : ∃ piece ∈ pieces, p ∈ ends piece.vertices := by
  fun_induction join pieces with
  | case1 => cases hc
  | case2 piece pieces grown ih =>
    obtain ⟨hleft, hends⟩ := Strand.grow_ends (Strand.ofCurve piece) pieces
    rcases List.mem_cons.mp hc with rfl | hc
    · rw [Strand.vertices_of_open ho] at hp
      rcases hends p hp with hp | ⟨q, hq, hp⟩
      · exact ⟨piece, List.mem_cons_self, hp⟩
      · exact ⟨q, List.mem_cons_of_mem _ hq, hp⟩
    · obtain ⟨q, hq, hp⟩ := ih hc
      exact ⟨q, List.mem_cons_of_mem _ (hleft q hq), hp⟩

/-- No end of an open curve meets an end of a later one. -/
theorem pairwise_join (pieces : List Polycurve) :
    (join pieces).Pairwise fun earlier later =>
      earlier.closed = false → later.closed = false → EndsApart earlier.vertices later.vertices := by
  fun_induction join pieces with
  | case1 => exact .nil
  | case2 piece pieces grown ih =>
    refine .cons ?_ ih
    intro later hlater hopen ho p hp q hq
    have hfirst : Reached (piece :: pieces) (.ofCurve piece) pieces := .first
    obtain ⟨-, hdone⟩ := hfirst.grow
    have hnone : grown.1.extend? grown.2 = none := by
      rcases hdone with hloop | hnone
      · rw [Strand.closed_finish, hloop] at hopen
        cases hopen
      · exact hnone
    obtain ⟨left, hleft, hq⟩ := ends_of_join hlater ho hq
    rw [Strand.vertices_of_open hopen] at hp
    exact Strand.extend?_eq_none_iff.mp hnone left hleft p hp q hq

/-- The ends of an open joined curve of more than two vertices do not meet. -/
theorem apart_of_open (hc : curve ∈ join pieces) (ho : curve.closed = false) (hlong : 2 < curve.vertices.length)
    {p q : Position} (hp : curve.vertices.head? = some p) (hq : curve.vertices.getLast? = some q) : Apart p q := by
  obtain ⟨strands, -, hfinished⟩ := exists_grown pieces
  rw [hfinished] at hc
  obtain ⟨s, -, rfl⟩ := List.mem_map.mp hc
  rw [Strand.vertices_of_open ho] at hp hq hlong
  intro hm
  rw [(Strand.finishedTo_finish s).closed.mpr ⟨hlong, p, q, hp, hq, hm⟩] at ho
  cases ho

/-- The first strand takes in one piece, and nothing that is left fits then. -/
theorem join_of_extend? {piece : Polycurve} {longer : Strand} {rest : List Polycurve}
    (hopen : (Strand.ofCurve piece).isLoop = false) (hfits : (Strand.ofCurve piece).extend? pieces = some (longer, rest))
    (hnone : longer.extend? rest = none) : join (piece :: pieces) = longer.finish :: join rest := by
  rw [join, Strand.grow_of_extend? hopen hfits, Strand.grow_of_extend?_eq_none hnone]

/-! ## Joining once more -/

/-- Nothing is joined of curves that are apart and are finished to themselves: each is a strand that
    nothing fits. -/
theorem join_of_apart {curves : List Polycurve} (hapart : curves.Pairwise fun a b => EndsApart a.vertices b.vertices)
    (hsame : ∀ c ∈ curves, (Strand.ofCurve c).finish = c) :
    join curves = curves := by
  induction curves with
  | nil => rw [join]
  | cons curve curves ih =>
    obtain ⟨hfirst, hrest⟩ := List.pairwise_cons.mp hapart
    obtain ⟨hsame, hsames⟩ := List.forall_mem_cons.mp hsame
    have hnone : (Strand.ofCurve curve).extend? curves = none := Strand.extend?_eq_none_iff.mpr hfirst
    rw [join, Strand.grow_of_extend?_eq_none hnone, hsame, ih hrest hsames]

/-- Joining the open curves among the joined ones once more changes nothing. -/
theorem join_open_join (hp : ∀ piece ∈ pieces, piece.WellFormed) :
    join ((join pieces).filter (!·.closed)) = (join pieces).filter (!·.closed) := by
  have hstrand : ∀ c ∈ (join pieces).filter (!·.closed),
      ∃ s : Strand, s.finish = c ∧ Strand.ofCurve c = s := by
    intro c hc
    obtain ⟨hc, ho⟩ := List.mem_filter.mp hc
    have ho : c.closed = false := by simpa using ho
    obtain ⟨strands, hgrown, hfinished⟩ := exists_grown pieces
    rw [hfinished] at hc
    obtain ⟨s, hs, rfl⟩ := List.mem_map.mp hc
    obtain ⟨rest, hreached, -⟩ := hgrown s hs
    exact ⟨s, rfl, Strand.ofCurve_finish (hreached.aligned hp).1 ho⟩
  refine join_of_apart ?_ ?_
  · refine (List.pairwise_filter.mpr ?_)
    exact (pairwise_join pieces).imp fun h ha hb => h (by simpa using ha) (by simpa using hb)
  · intro c hc
    obtain ⟨s, hfinish, hs⟩ := hstrand c hc
    rwa [hs]

end Polycurve

end Sketchwork
