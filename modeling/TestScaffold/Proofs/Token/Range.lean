import TestScaffold.Token.Stream

/-!
# Rows of tokens and the stretches they take

Tokens that follow one another in their text take a stretch that reaches from the first to the last of them. Rows
that stand side by side take stretches side by side, and a row inside another one takes a stretch inside its.

Results:
* `extent_merge`: the stretches of the two ends of a row merge to the stretch of the row.
* `extent_within`: stretches lie inside one another as their rows do.
-/

namespace TestScaffold

/-- Whether a span lies inside another one. -/
def Span.Within (s outer : Span) : Prop := outer.start ≤ s.start ∧ s.stop ≤ outer.stop

theorem Span.Within.trans {a b c : Span} (h : a.Within b) (k : b.Within c) : a.Within c :=
  ⟨Nat.le_trans k.1 h.1, Nat.le_trans h.2 k.2⟩

namespace Token

/-- The last token, if there is one. -/
def back (ts : List Token) : Token := ts.getLast?.getD final

/-- The stretch of text that a row of tokens takes. -/
def extent (ts : List Token) : Span := ⟨(front ts).span.start, (back ts).span.stop⟩

/-- Tokens that follow one another in their text. -/
structure Ordered (ts : List Token) : Prop where
  start_le : ∀ t ∈ ts, t.span.start ≤ t.span.stop
  pairwise : ts.Pairwise fun t u => t.span.stop ≤ u.span.start

variable {ts us vs : List Token}

theorem front_append (h : ts ≠ []) (us : List Token) : front (ts ++ us) = front ts := by
  cases ts with
  | nil => exact absurd rfl h
  | cons t ts => rfl

theorem back_append (ts : List Token) (h : us ≠ []) : back (ts ++ us) = back us := by
  rw [back, back, List.getLast?_append]
  cases hl : us.getLast? with
  | none => exact absurd (List.getLast?_eq_none_iff.mp hl) h
  | some t => rfl

theorem front_mem (h : ts ≠ []) : front ts ∈ ts := by
  cases ts with
  | nil => exact absurd rfl h
  | cons t ts => exact List.mem_cons_self

theorem back_mem (h : ts ≠ []) : back ts ∈ ts := by
  rw [back]
  cases hl : ts.getLast? with
  | none => exact absurd (List.getLast?_eq_none_iff.mp hl) h
  | some t => exact List.mem_of_getLast? hl

theorem back_concat (ts : List Token) (t : Token) : back (ts ++ [t]) = t := back_append ts (List.cons_ne_nil t [])

/-- A row of tokens ends with its last one. -/
theorem exists_concat_back (h : ts ≠ []) : ∃ init last, ts = init ++ [last] ∧ back ts = last := by
  rcases List.eq_nil_or_concat ts with rfl | ⟨init, last, rfl⟩
  · exact absurd rfl h
  · rw [List.concat_eq_append]
    exact ⟨init, last, rfl, back_concat init last⟩

namespace Ordered

theorem sublist (h : Ordered ts) (hs : us.Sublist ts) : Ordered us :=
  ⟨fun t ht => h.start_le t (hs.subset ht), h.pairwise.sublist hs⟩

theorem left (h : Ordered (ts ++ us)) : Ordered ts := h.sublist (List.sublist_append_left ts us)

theorem right (h : Ordered (ts ++ us)) : Ordered us := h.sublist (List.sublist_append_right ts us)

theorem stop_le (h : Ordered (ts ++ us)) {t u : Token} (ht : t ∈ ts) (hu : u ∈ us) : t.span.stop ≤ u.span.start :=
  (List.pairwise_append.mp h.pairwise).2.2 t ht u hu

theorem start_le_start (h : Ordered (ts ++ us)) {t u : Token} (ht : t ∈ ts) (hu : u ∈ us) :
    t.span.start ≤ u.span.start :=
  Nat.le_trans (h.left.start_le t ht) (h.stop_le ht hu)

theorem stop_le_stop (h : Ordered (ts ++ us)) {t u : Token} (ht : t ∈ ts) (hu : u ∈ us) :
    t.span.stop ≤ u.span.stop :=
  Nat.le_trans (h.stop_le ht hu) (h.right.start_le u hu)

/-- No token begins before the first one. -/
theorem front_start_le (h : Ordered ts) {t : Token} (ht : t ∈ ts) : (front ts).span.start ≤ t.span.start := by
  cases ts with
  | nil => cases ht
  | cons u ts =>
    rcases List.mem_cons.mp ht with rfl | ht
    · exact Nat.le_refl _
    · exact @start_le_start [u] ts h u t List.mem_cons_self ht

/-- No token ends behind the last one. -/
theorem le_back_stop (h : Ordered ts) {t : Token} (ht : t ∈ ts) : t.span.stop ≤ (back ts).span.stop := by
  obtain ⟨init, u, rfl, hback⟩ := exists_concat_back (List.ne_nil_of_mem ht)
  rw [hback]
  rcases List.mem_append.mp ht with ht | ht
  · exact h.stop_le_stop ht (List.mem_singleton_self u)
  · obtain rfl := List.mem_singleton.mp ht
    exact Nat.le_refl _

end Ordered

/-- The stretches of the two ends of a row merge to the stretch of the row. -/
theorem extent_merge (h : Ordered (ts ++ us ++ vs)) (ht : ts ≠ []) (hv : vs ≠ []) :
    (extent ts).merge (extent vs) = extent (ts ++ us ++ vs) := by
  have hall := h
  rw [List.append_assoc] at hall
  have hend : front vs ∈ us ++ vs := List.mem_append_right us (front_mem hv)
  have hstart := hall.start_le_start (front_mem ht) hend
  have hstop := hall.stop_le_stop (back_mem ht) (List.mem_append_right us (back_mem hv))
  rw [extent, extent, extent, back_append _ hv, List.append_assoc, front_append ht, Span.merge]
  rw [Nat.min_eq_left hstart, Nat.max_eq_right hstop]

/-- The first token of a row and the stretch of its end merge to the stretch of the row. -/
theorem front_merge_extent (h : Ordered (ts ++ us)) (hu : us ≠ []) :
    (front (ts ++ us)).span.merge (extent us) = extent (ts ++ us) := by
  have hne : ts ++ us ≠ [] := List.append_ne_nil_of_right_ne_nil ts hu
  have hstart := h.front_start_le (List.mem_append_right ts (front_mem hu))
  have hstop := h.le_back_stop (front_mem hne)
  rw [back_append ts hu] at hstop
  rw [extent, extent, back_append ts hu, Span.merge]
  rw [Nat.min_eq_left hstart, Nat.max_eq_right hstop]

/-- A row inside another one takes a stretch inside its. -/
theorem extent_within (h : Ordered (ts ++ us ++ vs)) (hu : us ≠ []) : (extent us).Within (extent (ts ++ us ++ vs)) := by
  constructor
  · exact h.front_start_le (List.mem_append_left vs (List.mem_append_right ts (front_mem hu)))
  · exact h.le_back_stop (List.mem_append_left vs (List.mem_append_right ts (back_mem hu)))

end Token

end TestScaffold
