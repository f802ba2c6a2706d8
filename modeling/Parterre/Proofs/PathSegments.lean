import Parterre.Proofs.RebuiltEdges

/-! # The segments of the paths

A border that was seen before is passed over, and so is a segment that was laid before.  The first
test saves work and changes nothing: the segments are those of all borders, each where it comes
first.  Rectangles count as the same if their coordinates have the same bits. -/
namespace Parterre

def Rect.key (r : Rect) : UInt32 × UInt32 × UInt32 × UInt32 :=
  (r.x.toBits, r.y.toBits, r.w.toBits, r.h.toBits)

theorem Rect.key_injective : Function.Injective Rect.key := by
  rintro ⟨x, y, w, h⟩ ⟨x', y', w', h'⟩ hkey
  have hbits : ∀ {a b : Float32}, a.toBits = b.toBits → a = b := by
    rintro ⟨⟨m, hm⟩⟩ ⟨⟨n, hn⟩⟩ hmn
    cases show m = n from hmn
    rfl
  simp only [Rect.key, Prod.mk.injEq] at hkey
  obtain ⟨hx, hy, hw, hh⟩ := hkey
  rw [hbits hx, hbits hy, hbits hw, hbits hh]

theorem nodup_eraseDups {α : Type} [BEq α] [LawfulBEq α] : ∀ xs : List α, xs.eraseDups.Nodup
  | [] => by rw [List.eraseDups_nil]; exact .nil
  | x :: xs => by
    have hshort : (xs.filter fun y => !y == x).length < xs.length + 1 :=
      Nat.lt_succ_of_le (List.length_filter_le _ xs)
    rw [List.eraseDups_cons, List.nodup_cons, List.mem_eraseDups]
    exact ⟨by simp [List.mem_filter], nodup_eraseDups (xs.filter fun y => !y == x)⟩
termination_by xs => xs.length

namespace Graph

def segment (bounds border : Rect) : Rect := border.snapped.clampedInto bounds

/-- The segments still to be laid are the first ones of their kind that were not laid before. -/
theorem segmentsOf_eq (bounds : Rect) (borders seen laid : List Rect)
    (hseen : ∀ border ∈ seen, border.clampedInto bounds ∈ laid) :
    segmentsOf bounds borders seen laid =
      ((borders.map (segment bounds)).filter fun s => s ∉ laid).eraseDups := by
  induction borders generalizing seen laid with
  | nil => rfl
  | cons border rest ih =>
    unfold segmentsOf
    rw [List.map_cons, List.filter_cons]
    by_cases hold : border.snapped ∈ seen
    · -- its segment is laid already
      have hlaid : segment bounds border ∈ laid := hseen _ hold
      simp only [hold, if_true, hlaid, not_true, decide_false, Bool.false_eq_true, if_false]
      exact ih seen laid hseen
    · have hseen' (more : List Rect) (hmore : segment bounds border ∈ more)
          (hsub : laid ⊆ more) : ∀ b ∈ border.snapped :: seen, b.clampedInto bounds ∈ more := by
        intro b hb
        rcases List.mem_cons.1 hb with rfl | hb
        · exact hmore
        · exact hsub (hseen b hb)
      by_cases hlaid : segment bounds border ∈ laid
      · have hlaid' : border.snapped.clampedInto bounds ∈ laid := hlaid
        simp only [hold, if_false, hlaid, hlaid', if_true, not_true, decide_false,
          Bool.false_eq_true]
        exact ih _ laid (hseen' laid hlaid fun _ h => h)
      · have hlaid' : border.snapped.clampedInto bounds ∉ laid := hlaid
        simp only [hold, if_false, hlaid, hlaid', not_false_eq_true, decide_true, if_true]
        change segment bounds border :: segmentsOf bounds rest _ (segment bounds border :: laid) = _
        rw [List.eraseDups_cons, List.filter_filter,
          ih _ _ (hseen' _ List.mem_cons_self (List.subset_cons_self _ _))]
        congr 2
        refine List.filter_congr fun s _ => ?_
        simp only [List.mem_cons, not_or, Bool.decide_and, decide_not, Bool.beq_eq_decide_eq]

theorem segmentsOf_nil (bounds : Rect) (borders : List Rect) :
    segmentsOf bounds borders [] [] = (borders.map (segment bounds)).eraseDups := by
  have hall (s : Rect) : decide (s ∉ ([] : List Rect)) = true := decide_eq_true List.not_mem_nil
  rw [segmentsOf_eq bounds _ [] [] (by simp), List.filter_eq_self.2 fun s _ => hall s]

theorem pathSegments_eq (g : Graph) (bounds : Rect) :
    g.pathSegments bounds = (g.edgeBorders.map (segment bounds)).eraseDups :=
  segmentsOf_nil bounds g.edgeBorders

theorem mem_pathSegments_iff {g : Graph} {bounds s : Rect} :
    s ∈ g.pathSegments bounds ↔
      ∃ e ∈ g.edges, ∃ border, e.border = some border ∧ s = segment bounds border := by
  rw [pathSegments_eq, List.mem_eraseDups, List.mem_map]
  constructor
  · rintro ⟨border, hborder, rfl⟩
    obtain ⟨e, he, hb⟩ := List.mem_filterMap.1 hborder
    exact ⟨e, he, border, hb, rfl⟩
  · rintro ⟨e, he, border, hb, rfl⟩
    exact ⟨border, List.mem_filterMap.2 ⟨e, he, hb⟩, rfl⟩

theorem nodup_pathSegments (g : Graph) (bounds : Rect) : (g.pathSegments bounds).Nodup := by
  rw [pathSegments_eq]
  exact nodup_eraseDups _

private theorem edges_ordered (g : Graph) :
    g.edges.Pairwise fun d e => d.contact.Before e.contact := by
  rw [edges, List.pairwise_map]
  exact g.borders.ascending.imp Ends.compare_eq_lt_iff.1

/-- What comes first is the same whether rectangles are told apart as such or by their bits. -/
theorem eraseDups_eq_eraseDupsBy_key (rects : List Rect) :
    rects.eraseDups = rects.eraseDupsBy fun r s => r.key == s.key := by
  have hkey : (fun r s : Rect => r == s) = fun r s => r.key == s.key := by
    funext r s
    rw [Bool.eq_iff_iff, beq_iff_eq, beq_iff_eq, Rect.key_injective.eq_iff]
  exact congrArg (List.eraseDupsBy · rects) hkey

private theorem eraseDups_append_cons_of_mem {before : List Rect} {r : Rect} (h : r ∈ before)
    (after : List Rect) : (before ++ r :: after).eraseDups = (before ++ after).eraseDups := by
  rw [List.eraseDups_append, List.eraseDups_append, List.cons_removeAll, if_neg (by simpa using h)]

/-- The segments are those of all borders in edge order, each where its bits come first: no two have
the same bits, each border has its own among them, and each of them comes from a border.  A border
that is passed over since it was seen has its segment laid by then, and without it the segments are
the same. -/
theorem segments_are_first_occurrences (g : Graph) (bounds : Rect) :
    g.edges.Pairwise (fun d e => d.ends.low < e.ends.low ∨
      d.ends.low = e.ends.low ∧ d.ends.high < e.ends.high) ∧
    g.pathSegments bounds = ((g.edges.filterMap Edge.border).map fun border =>
      border.snapped.clampedInto bounds).eraseDupsBy (fun r s => r.key == s.key) ∧
    ((g.pathSegments bounds).map Rect.key).Nodup ∧
    (∀ s, s ∈ g.pathSegments bounds ↔ ∃ e ∈ g.edges, ∃ border, e.border = some border ∧
      s = border.snapped.clampedInto bounds) ∧
    ∀ before border after, g.edges.filterMap Edge.border = before ++ border :: after →
      border.snapped.key ∈ before.map (fun b => b.snapped.key) →
      border.snapped.clampedInto bounds ∈ segmentsOf bounds before [] [] ∧
      segmentsOf bounds (before ++ after) [] [] = g.pathSegments bounds := by
  refine ⟨g.edges_ordered, ?_, ?_, fun s => mem_pathSegments_iff, ?_⟩
  · rw [pathSegments_eq, eraseDups_eq_eraseDupsBy_key]
    rfl
  · rw [List.Nodup, List.pairwise_map]
    exact (g.nodup_pathSegments bounds).imp fun hne hkey => hne (Rect.key_injective hkey)
  · intro before border after hborders hseen
    obtain ⟨b, hb, hkey⟩ := List.mem_map.1 hseen
    have hsnapped : b.snapped = border.snapped := Rect.key_injective hkey
    have hlaid : segment bounds border ∈ before.map (segment bounds) :=
      List.mem_map.2 ⟨b, hb, congrArg (Rect.clampedInto · bounds) hsnapped⟩
    constructor
    · rw [segmentsOf_nil]
      exact List.mem_eraseDups.2 hlaid
    · rw [pathSegments_eq, edgeBorders, hborders, segmentsOf_nil, List.map_append, List.map_append,
        List.map_cons, eraseDups_append_cons_of_mem hlaid]

/-- Four edges between four sectors, of which three have their path at the same place: two have the
same border, and another one is moved there. -/
def crossed : Graph :=
  let lawn : Element := .grassRect ⟨10.0, 10.0, 200.0, 100.0⟩
  ((((empty.addAll [lawn, lawn, lawn, lawn]).connect 1 2 (some ⟨0.0, 100.0, 80.0, 20.0⟩)).connect
    1 3 (some ⟨0.0, 100.0, 80.0, 20.0⟩)).connect 2 3 (some ⟨-10.0, 110.0, 80.0, 20.0⟩)).connect
    3 4 (some ⟨110.0, 10.0, 10.0, 100.0⟩)

/-- The border of the second edge is passed over, and that of the third one adds no segment. -/
theorem segments_are_first_occurrences_crossed :
    let bounds : Rect := ⟨10.0, 10.0, 200.0, 100.0⟩
    let twice : Rect := ⟨0.0, 100.0, 80.0, 20.0⟩
    let rest : List Rect := [⟨-10.0, 110.0, 80.0, 20.0⟩, ⟨110.0, 10.0, 10.0, 100.0⟩]
    crossed.pathSegments bounds = [⟨10.0, 90.0, 80.0, 20.0⟩, ⟨110.0, 10.0, 10.0, 100.0⟩] ∧
    (crossed.edges.filterMap Edge.border = [twice] ++ twice :: rest ∧
      twice.snapped.key ∈ [twice].map fun b => b.snapped.key) ∧
    twice.snapped.clampedInto bounds ∈ segmentsOf bounds [twice] [] [] ∧
    segmentsOf bounds ([twice] ++ rest) [] [] = crossed.pathSegments bounds := by
  intro bounds twice rest
  have hborders : crossed.edges.filterMap Edge.border = [twice] ++ twice :: rest := by
    decide +kernel
  have hseen : twice.snapped.key ∈ [twice].map fun b => b.snapped.key := List.mem_singleton_self _
  obtain ⟨-, -, -, -, hpassed⟩ := segments_are_first_occurrences crossed bounds
  exact ⟨by decide +kernel, ⟨hborders, hseen⟩, hpassed [twice] twice rest hborders hseen⟩

end Graph
end Parterre
