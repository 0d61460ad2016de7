import Mathlib.Data.List.Perm.Basic

/-!
# Tilings

Spans of a memory that lie apart and are a number of regions between them.  Cutting a span in two,
or joining two that touch, changes neither what they cover nor that they lie apart.
-/

namespace BekOS

/-- The places from `start` on. -/
structure Span where
  start : ℕ
  len : ℕ
  deriving DecidableEq, Repr

namespace Span

/-- The place behind the last one. -/
def stop (span : Span) : ℕ := span.start + span.len

/-- The place is in the span. -/
def Covers (span : Span) (i : ℕ) : Prop := span.start ≤ i ∧ i < span.stop
deriving Decidable

/-- The spans do not meet. -/
def Apart (span other : Span) : Prop := span.stop ≤ other.start ∨ other.stop ≤ span.start
deriving Decidable

variable {span other left right whole : Span} {i : ℕ}

theorem Apart.symm (h : span.Apart other) : other.Apart span := Or.symm h

/-- Spans that have no place in common. -/
theorem apart_iff (hlen : 0 < span.len) (hlen' : 0 < other.len) :
    span.Apart other ↔ ∀ i, span.Covers i → ¬ other.Covers i := by
  unfold Apart Covers stop
  constructor
  · intro h i hi hi'
    omega
  · intro h
    have hfirst := h span.start
    have hother := h other.start
    omega

/-- Two spans make up a third, the one behind the other. -/
structure Joins (left right whole : Span) : Prop where
  first : left.start = whole.start
  touch : left.stop = right.start
  last : right.stop = whole.stop

theorem Joins.len_pos (h : left.Joins right whole) (hleft : 0 < left.len) : 0 < whole.len := by
  obtain ⟨hfirst, htouch, hlast⟩ := h
  unfold stop at *
  omega

theorem Joins.covers (h : left.Joins right whole) :
    whole.Covers i ↔ left.Covers i ∨ right.Covers i := by
  obtain ⟨hfirst, htouch, hlast⟩ := h
  unfold Covers
  unfold stop at *
  omega

theorem Joins.apart (h : left.Joins right whole) (hleft : 0 < left.len) (hright : 0 < right.len)
    (hother : 0 < other.len) : whole.Apart other ↔ left.Apart other ∧ right.Apart other := by
  obtain ⟨hfirst, htouch, hlast⟩ := h
  unfold Apart
  unfold stop at *
  omega

end Span

open BekOS.Span

/-- The spans are not empty and lie apart, and what is in one of them is what is in one of the
regions. -/
structure Tiles (spans regions : List Span) : Prop where
  pos : ∀ span ∈ spans, 0 < span.len
  apart : spans.Pairwise Apart
  covers : ∀ i, (∃ region ∈ regions, region.Covers i) ↔ ∃ span ∈ spans, span.Covers i

section Tiles

variable {spans spans' regions : List Span} {span left right whole region : Span}

theorem tiles_nil : Tiles [] [] :=
  ⟨List.forall_mem_nil _, List.Pairwise.nil, fun _ => iff_of_false (by simp) (by simp)⟩

/-- The order of the spans does not matter. -/
theorem Tiles.perm (h : Tiles spans regions) (hperm : spans.Perm spans') :
    Tiles spans' regions := by
  refine ⟨fun span hspan => h.pos span (hperm.mem_iff.mpr hspan),
    (hperm.pairwise_iff Apart.symm).mp h.apart, fun i => (h.covers i).trans ?_⟩
  exact exists_congr fun span => and_congr_left fun _ => hperm.mem_iff

/-- **Cutting and joining.** -/
theorem tiles_join_iff (h : left.Joins right whole) (hleft : 0 < left.len)
    (hright : 0 < right.len) :
    Tiles (whole :: spans) regions ↔ Tiles (left :: right :: spans) regions := by
  have hbetween : left.Apart right := Or.inl (Nat.le_of_eq h.touch)
  have hcovers : ∀ i, (∃ span ∈ whole :: spans, span.Covers i) ↔
      ∃ span ∈ left :: right :: spans, span.Covers i := by
    intro i
    rw [List.exists_mem_cons_iff, List.exists_mem_cons_iff, List.exists_mem_cons_iff, h.covers,
      or_assoc]
  constructor
  · rintro ⟨hpos, hapart, hregions⟩
    obtain ⟨hwhole, hspans⟩ := List.pairwise_cons.mp hapart
    have hpos' := (List.forall_mem_cons.mp hpos).2
    refine ⟨List.forall_mem_cons.mpr ⟨hleft, List.forall_mem_cons.mpr ⟨hright, hpos'⟩⟩,
      List.pairwise_cons.mpr ⟨?_, List.pairwise_cons.mpr ⟨?_, hspans⟩⟩,
      fun i => (hregions i).trans (hcovers i)⟩
    · refine List.forall_mem_cons.mpr ⟨hbetween, fun other hother => ?_⟩
      exact ((h.apart hleft hright (hpos' other hother)).mp (hwhole other hother)).1
    · intro other hother
      exact ((h.apart hleft hright (hpos' other hother)).mp (hwhole other hother)).2
  · rintro ⟨hpos, hapart, hregions⟩
    obtain ⟨hfirst, hrest⟩ := List.pairwise_cons.mp hapart
    obtain ⟨hsecond, hspans⟩ := List.pairwise_cons.mp hrest
    have hpos' := (List.forall_mem_cons.mp (List.forall_mem_cons.mp hpos).2).2
    refine ⟨List.forall_mem_cons.mpr ⟨h.len_pos hleft, hpos'⟩,
      List.pairwise_cons.mpr ⟨fun other hother => ?_, hspans⟩,
      fun i => (hregions i).trans (hcovers i).symm⟩
    exact (h.apart hleft hright (hpos' other hother)).mpr
      ⟨hfirst other (List.mem_cons_of_mem _ hother), hsecond other hother⟩

/-- A tile lies apart from what lies apart from the regions. -/
theorem Tiles.apart_of_regions (h : Tiles spans regions) (hregions : ∀ r ∈ regions, 0 < r.len)
    (hlen : 0 < region.len) (hapart : ∀ r ∈ regions, region.Apart r) (hspan : span ∈ spans) :
    region.Apart span := by
  refine (apart_iff hlen (h.pos span hspan)).mpr fun i hi hcovers => ?_
  obtain ⟨r, hr, hcovered⟩ := (h.covers i).mpr ⟨span, hspan, hcovers⟩
  exact (apart_iff hlen (hregions r hr)).mp (hapart r hr) i hi hcovered

/-- A new region is a tile of its own. -/
theorem Tiles.cons (h : Tiles spans regions) (hlen : 0 < region.len)
    (hapart : ∀ span ∈ spans, region.Apart span) : Tiles (region :: spans) (region :: regions) := by
  refine ⟨List.forall_mem_cons.mpr ⟨hlen, h.pos⟩, List.pairwise_cons.mpr ⟨hapart, h.apart⟩,
    fun i => ?_⟩
  rw [List.exists_mem_cons_iff, List.exists_mem_cons_iff, h.covers]

end Tiles

end BekOS
