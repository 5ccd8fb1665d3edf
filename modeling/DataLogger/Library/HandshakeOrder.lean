/-
# Messages that are handed over in order

The exchange of `Library.Handshake` over connections: a connection loses nothing until it
breaks, and then all that was on its way.  If everything in flight is sent again over the
next one before anything else is, `Exchange.in_order` says that messages are delivered in
the order in which they were submitted.
-/
import DataLogger.Library.Handshake

namespace Exchange

variable {ι μ : Type*} [DecidableEq ι] {e e' : Exchange ι μ} {i j : ι} {x : InFlight ι μ}
  {xs : List (InFlight ι μ)}

/-! ## Messages are delivered in order -/

/-- The ids `is` but for the last of them, `rest`, come up in the list one after the other, each for
the first time when those before it have come up; those of `rest` do not come up. -/
inductive Serves : List ι → List ι → List ι → Prop
  | nil {rest l : List ι} (h : ∀ i ∈ rest, i ∉ l) : Serves rest l rest
  | take {i : ι} {is l rest : List ι} (h : Serves is l rest) : Serves (i :: is) (i :: l) rest
  | skip {i : ι} {is l rest : List ι} (hi : i ∉ is) (h : Serves is l rest) : Serves is (i :: l) rest

/-- The ids `is` come up in the list in their order; all of them do if there is a connection. -/
def Lined (up : Bool) (is l : List ι) : Prop := ∃ rest, Serves is l rest ∧ (up = true → rest = [])

namespace Serves

omit [DecidableEq ι]

variable {is l rest : List ι}

/-- Where all the ids come up, they do so in a longer list too. -/
theorem append (h : Serves is l rest) (hrest : rest = []) (l' : List ι) :
    Serves is (l ++ l') [] := by
  induction h with
  | nil h =>
      subst hrest
      exact .nil nofun
  | take _ ih => exact .take (ih hrest)
  | skip hi _ ih => exact .skip hi (ih hrest)

/-- One id comes up at the end of a list that does not have it. -/
theorem singleton (hi : i ∉ l) : Serves [i] (l ++ [i]) [] := by
  induction l with
  | nil => exact .take (.nil nofun)
  | cons j l ih =>
      obtain ⟨hne, hi⟩ := not_or.mp (mt List.mem_cons.mpr hi)
      exact .skip (by simpa using Ne.symm hne) (ih hi)

/-- One more id comes up at the end. -/
theorem append_self (h : Serves is l rest) (hrest : rest = []) (hi : i ∉ l) :
    Serves (is ++ [i]) (l ++ [i]) [] := by
  induction h with
  | @nil rest l h =>
      subst hrest
      exact .singleton hi
  | take _ ih => exact .take (ih hrest (mt (List.mem_cons_of_mem _) hi))
  | skip hj _ ih =>
      obtain ⟨hne, hi⟩ := not_or.mp (mt List.mem_cons.mpr hi)
      refine .skip (fun hmem => ?_) (ih hrest hi)
      exact (List.mem_append.mp hmem).elim hj fun h => hne (List.mem_singleton.mp h).symm

/-- One more id that does not come up. -/
theorem append_absent (h : Serves is l rest) (hi : i ∉ l) : Serves (is ++ [i]) l (rest ++ [i]) := by
  induction h with
  | nil h =>
      refine .nil fun j hj => ?_
      rcases List.mem_append.mp hj with hj | hj
      · exact h j hj
      · rw [List.mem_singleton.mp hj]
        exact hi
  | take _ ih => exact .take (ih (mt (List.mem_cons_of_mem _) hi))
  | skip hj _ ih =>
      obtain ⟨hne, hi⟩ := not_or.mp (mt List.mem_cons.mpr hi)
      refine .skip (fun hmem => ?_) (ih hi)
      exact (List.mem_append.mp hmem).elim hj fun h => hne (List.mem_singleton.mp h).symm

/-- The first id that comes up is the first of those that are to come. -/
theorem of_mem (h : Serves is (i :: l) rest) (hi : i ∈ is) :
    ∃ is', is = i :: is' ∧ Serves is' l rest := by
  cases h with
  | nil h => exact absurd List.mem_cons_self (h i hi)
  | take h => exact ⟨_, rfl, h⟩
  | skip hi' h => exact absurd hi hi'

/-- An id that is not among them does not matter. -/
theorem of_not_mem (h : Serves is (i :: l) rest) (hi : i ∉ is) : Serves is l rest := by
  cases h with
  | nil h => exact .nil fun j hj hmem => h j hj (List.mem_cons_of_mem _ hmem)
  | take h => exact absurd List.mem_cons_self hi
  | skip _ h => exact h

/-- A shorter list serves fewer of them, in the same order. -/
theorem of_append {l' : List ι} (h : Serves is (l ++ l') rest) : ∃ rest', Serves is l rest' := by
  induction l generalizing is with
  | nil => exact ⟨is, .nil fun _ _ => List.not_mem_nil⟩
  | cons i l ih =>
      by_cases hi : i ∈ is
      · obtain ⟨is', rfl, htail⟩ := h.of_mem hi
        obtain ⟨rest', htail⟩ := ih htail
        exact ⟨rest', .take htail⟩
      · obtain ⟨rest', h⟩ := ih (h.of_not_mem hi)
        exact ⟨rest', .skip hi h⟩

/-- Ids serve themselves, whatever different ones stand between them. -/
theorem of_sublist (h : is.Sublist l) (hl : l.Nodup) : Serves is l [] := by
  induction h with
  | slnil => exact .nil nofun
  | cons i h ih =>
      obtain ⟨hi, hl⟩ := List.nodup_cons.mp hl
      exact .skip (fun hmem => hi (h.subset hmem)) (ih hl)
  | cons_cons i h ih => exact .take (ih (List.nodup_cons.mp hl).2)

end Serves

namespace Lined

omit [DecidableEq ι]

variable {up : Bool} {is l : List ι}

/-- One more id comes up if there is a connection. -/
theorem pass_self (h : Lined up is l) (hi : i ∉ l) : Lined up (is ++ [i]) (l ++ pass up [i]) := by
  obtain ⟨rest, h, hup⟩ := h
  cases up with
  | true =>
      obtain rfl := hup rfl
      exact ⟨[], h.append_self rfl hi, fun _ => rfl⟩
  | false =>
      rw [pass_false, List.append_nil]
      exact ⟨rest ++ [i], h.append_absent hi, nofun⟩

/-- What else a channel takes does not disturb those that come up. -/
theorem pass_more (h : Lined up is l) (l' : List ι) : Lined up is (l ++ pass up l') := by
  obtain ⟨rest, h, hup⟩ := h
  cases up with
  | true =>
      obtain rfl := hup rfl
      exact ⟨[], h.append rfl l', fun _ => rfl⟩
  | false =>
      rw [pass_false, List.append_nil]
      exact ⟨rest, h, nofun⟩

/-- The first id that comes up is the first of those that are to come. -/
theorem of_mem (h : Lined up is (i :: l)) (hi : i ∈ is) :
    ∃ is', is = i :: is' ∧ Lined up is' l := by
  obtain ⟨rest, h, hup⟩ := h
  obtain ⟨is', his, h⟩ := h.of_mem hi
  exact ⟨is', his, rest, h, hup⟩

/-- An id that is not among them does not matter. -/
theorem of_not_mem (h : Lined up is (i :: l)) (hi : i ∉ is) : Lined up is l := by
  obtain ⟨rest, h, hup⟩ := h
  exact ⟨rest, h.of_not_mem hi, hup⟩

/-- What does not come up any more when the connection breaks is the last of what would have. -/
theorem of_append {l' : List ι} (h : Lined up is (l ++ l')) : Lined false is l := by
  obtain ⟨rest, h, -⟩ := h
  obtain ⟨rest', h⟩ := h.of_append
  exact ⟨rest', h, nofun⟩

/-- Ids serve themselves over a new connection. -/
theorem of_sublist (h : is.Sublist l) (hl : l.Nodup) : Lined up is l :=
  ⟨[], .of_sublist h hl, fun _ => rfl⟩

end Lined

/-- The ids that are published on the way forward. -/
def publishedIds (f : List (Forward ι μ)) : List ι :=
  f.filterMap fun | .publish i _ => some i | .release _ => none

/-- The ids that are released on the way forward. -/
def releasedIds (f : List (Forward ι μ)) : List ι :=
  f.filterMap fun | .publish _ _ => none | .release i => some i

/-- The ids that were received, on the way back. -/
def receivedIds (r : List (Reply ι)) : List ι :=
  r.filterMap fun | .received i => some i | .complete _ => none

/-- What happens over connections that lose nothing until they break; the flag says whether there is
one. When it breaks, what was on its way may still arrive up to some point.  Over a new connection
everything in flight is sent again, before anything else is. -/
inductive ReliableStep : Exchange ι μ × Bool → Exchange ι μ × Bool → Prop
  | move {e e' : Exchange ι μ} {up : Bool} (h : Move up e e') : ReliableStep (e, up) (e', up)
  | disconnect {e : Exchange ι μ} {up : Bool} {f : List (Forward ι μ)} {r : List (Reply ι)}
      (hf : f <+: e.forward) (hr : r <+: e.replies) :
      ReliableStep (e, up) ({ e with forward := f, replies := r }, false)
  | connect {e : Exchange ι μ} {up : Bool} :
      ReliableStep (e, up) ({ e with forward := e.inFlight.map (·.packet), replies := [] }, true)

/-- Sending messages in flight again, one after the other. -/
theorem moves_resend (up : Bool) (e : Exchange ι μ) {xs : List (InFlight ι μ)}
    (hxs : ∀ x ∈ xs, x ∈ e.inFlight) :
    Relation.ReflTransGen (Move up) e
      { e with forward := e.forward ++ pass up (xs.map (·.packet)) } := by
  induction xs generalizing e with
  | nil =>
      rw [List.map_nil, pass_nil, List.append_nil]
  | cons x xs ih =>
      have hfirst : Move up e { e with forward := e.forward ++ pass up [x.packet] } :=
        .resend (hxs x List.mem_cons_self)
      have hrest := ih { e with forward := e.forward ++ pass up [x.packet] } fun y hy =>
        hxs y (List.mem_cons_of_mem _ hy)
      have happend : e.forward ++ pass up ((x :: xs).map (·.packet)) =
          e.forward ++ pass up [x.packet] ++ pass up (xs.map (·.packet)) := by
        cases up <;> simp [pass]
      rw [happend]
      exact (Relation.ReflTransGen.single hfirst).trans hrest

/-- What happens over connections that break is a case of what happens over channels that lose. -/
theorem ReliableStep.steps {c c' : Exchange ι μ × Bool} (h : ReliableStep c c') :
    Relation.ReflTransGen Step c.1 c'.1 := by
  cases h with
  | move h => exact .single (.move h)
  | disconnect hf hr => exact .single (.lose hf.sublist hr.sublist)
  | @connect e up =>
      have hlose : Step e { e with forward := [], replies := [] } :=
        .lose (List.nil_sublist _) (List.nil_sublist _)
      have hresend := moves_resend true { e with forward := [], replies := [] }
        fun x (hx : x ∈ e.inFlight) => hx
      exact (Relation.ReflTransGen.single hlose).trans (hresend.lift id fun _ _ => .move)

/-- Runs over connections that break are runs over channels that lose. -/
theorem steps_of_reliable {c c' : Exchange ι μ × Bool}
    (h : Relation.ReflTransGen ReliableStep c c') :
    Relation.ReflTransGen Step c.1 c'.1 := by
  induction h with
  | refl => exact .refl
  | tail _ hstep ih => exact ih.trans hstep.steps

/-- The moves of the two ends are steps over a connection. -/
theorem ReliableStep.moves {up : Bool} (h : Relation.ReflTransGen (Move up) e e') :
    Relation.ReflTransGen ReliableStep (e, up) (e', up) :=
  h.lift (fun e => (e, up)) fun _ _ => .move

omit [DecidableEq ι] in
/-- The ids of the publications. -/
theorem mem_publishedIds {f : List (Forward ι μ)} : i ∈ publishedIds f ↔ ∃ m, .publish i m ∈ f := by
  rw [publishedIds, List.mem_filterMap]
  constructor
  · rintro ⟨p, hp, hi⟩
    cases p with
    | publish j m =>
        cases hi
        exact ⟨m, hp⟩
    | release j => cases hi
  · rintro ⟨m, hm⟩
    exact ⟨_, hm, rfl⟩

omit [DecidableEq ι] in
/-- The ids of the releases. -/
theorem mem_releasedIds {f : List (Forward ι μ)} : i ∈ releasedIds f ↔ .release i ∈ f := by
  rw [releasedIds, List.mem_filterMap]
  constructor
  · rintro ⟨p, hp, hi⟩
    cases p with
    | publish j m => cases hi
    | release j =>
        cases hi
        exact hp
  · intro hm
    exact ⟨_, hm, rfl⟩

omit [DecidableEq ι] in
/-- The ids of the answers to publications. -/
theorem mem_receivedIds {r : List (Reply ι)} : i ∈ receivedIds r ↔ .received i ∈ r := by
  rw [receivedIds, List.mem_filterMap]
  constructor
  · rintro ⟨p, hp, hi⟩
    cases p with
    | received j =>
        cases hi
        exact hp
    | complete j => cases hi
  · intro hm
    exact ⟨_, hm, rfl⟩

theorem mem_ofId {α : Type*} {key : α → ι} {l : List α} {p : α} :
    p ∈ ofId key i l ↔ p ∈ l ∧ key p = i := by
  rw [ofId, List.mem_filter, decide_eq_true_eq]

/-- The ids of publications on their way to the receiver's answer, and of those answers on their
way. -/
def answerIds (up : Bool) (e : Exchange ι μ) : List ι :=
  receivedIds e.replies ++ pass up (publishedIds e.forward)

/-- An id that is free is not on its way. -/
theorem Invariant.not_mem_of_free {up : Bool} (hinv : e.Invariant)
    (hfree : ∀ x ∈ e.inFlight, x.id ≠ i) :
    i ∉ answerIds up e := by
  have hp := hinv.phase i
  rw [findOf_eq_none hfree] at hp
  obtain ⟨hforward, hreplies⟩ := hp.not_mem_of_none
  rw [answerIds, List.mem_append, mem_receivedIds]
  rintro (hmem | hmem)
  · exact hreplies (mem_ofId.mpr ⟨hmem, rfl⟩)
  · cases up with
    | false => cases hmem
    | true =>
        obtain ⟨m, hmem⟩ := mem_publishedIds.mp hmem
        exact hforward m (mem_ofId.mpr ⟨hmem, rfl⟩)

section Passing

omit [DecidableEq ι]

variable {up : Bool} {m : μ} {f : List (Forward ι μ)} {r : List (Reply ι)}

theorem pass_append {α : Type*} (l l' : List α) :
    pass up (l ++ pass up l') = pass up l ++ pass up l' := by
  cases up <;> rfl

/-- One more publication adds its id, if there is a connection. -/
@[simp] theorem publishedIds_publish :
    publishedIds (f ++ pass up [.publish i m]) = publishedIds f ++ pass up [i] := by
  cases up <;> simp [publishedIds, pass]

/-- A release publishes nothing. -/
@[simp] theorem publishedIds_release :
    publishedIds (f ++ pass up [.release i]) = publishedIds f := by
  cases up <;> simp [publishedIds, pass]

/-- A publication releases nothing. -/
@[simp] theorem releasedIds_publish :
    releasedIds (f ++ pass up [.publish i m]) = releasedIds f := by
  cases up <;> simp [releasedIds, pass]

/-- One more release adds its id, if there is a connection. -/
@[simp] theorem releasedIds_release :
    releasedIds (f ++ pass up [.release i]) = releasedIds f ++ pass up [i] := by
  cases up <;> simp [releasedIds, pass]

@[simp] theorem receivedIds_received :
    receivedIds (r ++ pass up [.received i]) = receivedIds r ++ pass up [i] := by
  cases up <;> simp [receivedIds, pass]

@[simp] theorem receivedIds_complete :
    receivedIds (r ++ pass up [.complete i]) = receivedIds r := by
  cases up <;> simp [receivedIds, pass]

end Passing

/-- The messages in flight are the released ones `R` and, after them, the others; those that wait
for the receiver's answer come up on the way to it and back in their order, and so do the releases
of those that wait for their delivery. -/
structure Ordered (e : Exchange ι μ) (up : Bool) (R N : List (InFlight ι μ)) : Prop where
  split : e.inFlight = R ++ N
  released : ∀ x ∈ R, x.released = true
  published : ∀ x ∈ N, x.released = false
  receiving : Lined up (N.map (·.id)) (answerIds up e)
  releasing : Lined up ((R.filter (Waits e.held ·)).map (·.id)) (releasedIds e.forward)
  delivered : e.submitted = e.delivered ++ e.undelivered

section InOrder

variable {up : Bool} {R N : List (InFlight ι μ)}

omit [DecidableEq ι] in
/-- Everything that is published only still waits. -/
theorem filter_waits_published {held : ι → Option μ} (hN : ∀ x ∈ N, x.released = false) :
    N.filter (Waits held ·) = N :=
  List.filter_eq_self.mpr fun x hx => decide_eq_true (Or.inl (hN x hx))

omit [DecidableEq ι] in
/-- Of those that wait the released ones come first. -/
theorem Ordered.filter_waits (h : Ordered e up R N) {held : ι → Option μ} :
    e.inFlight.filter (Waits held ·) = R.filter (Waits held ·) ++ N := by
  rw [h.split, List.filter_append, filter_waits_published h.published]

omit [DecidableEq ι] in
/-- Of those that wait the released ones are those of `R`. -/
theorem filter_released (h : Ordered e up R N) {held : ι → Option μ} :
    (e.inFlight.filter (Waits held ·)).filter (·.released) = R.filter (Waits held ·) := by
  have hR : (R.filter (Waits held ·)).filter (·.released) = R.filter (Waits held ·) :=
    List.filter_eq_self.mpr fun x hx => h.released x (List.mem_filter.mp hx).1
  have hN : N.filter (·.released) = [] := by
    refine List.filter_eq_nil_iff.mpr fun x hx => ?_
    rw [h.published x hx]
    exact Bool.false_ne_true
  rw [h.filter_waits, List.filter_append, hR, hN, List.append_nil]

/-- A new message is the last of those that are published. -/
theorem Ordered.submit (hinv : e.Invariant) (h : Ordered e up R N) {i : ι} {m : μ}
    (hfree : ∀ x ∈ e.inFlight, x.id ≠ i) : Ordered { e with
      inFlight := e.inFlight ++ [⟨i, m, false⟩]
      forward := e.forward ++ pass up [.publish i m]
      submitted := e.submitted ++ [m] } up R (N ++ [⟨i, m, false⟩]) where
  split := by rw [h.split, List.append_assoc]
  released := h.released
  published := by
    intro x hx
    rcases List.mem_append.mp hx with hx | hx
    · exact h.published x hx
    · rw [List.mem_singleton.mp hx]
  receiving := by
    have hlined := h.receiving.pass_self (hinv.not_mem_of_free hfree)
    rw [answerIds, List.append_assoc, ← pass_append] at hlined
    rw [answerIds, publishedIds_publish, List.map_append]
    exact hlined
  releasing := by
    rw [releasedIds_publish]
    exact h.releasing
  delivered := by
    rw [h.delivered, undelivered, undelivered, List.filter_append, List.map_append,
      ← List.append_assoc]
    simp [Waits]

omit [DecidableEq ι] in
/-- Sending once more does not disturb the order. -/
theorem Ordered.resend (h : Ordered e up R N) (x : InFlight ι μ) :
    Ordered { e with forward := e.forward ++ pass up [x.packet] } up R N where
  split := h.split
  released := h.released
  published := h.published
  receiving := by
    have hlined := h.receiving.pass_more (publishedIds [x.packet])
    rw [answerIds, List.append_assoc, ← pass_append] at hlined
    have hids : publishedIds (e.forward ++ pass up [x.packet]) =
        publishedIds e.forward ++ pass up (publishedIds [x.packet]) := by
      cases up <;> simp [publishedIds, pass]
    rwa [answerIds, hids]
  releasing := by
    have hlined := h.releasing.pass_more (releasedIds [x.packet])
    have hids : releasedIds (e.forward ++ pass up [x.packet]) =
        releasedIds e.forward ++ pass up (releasedIds [x.packet]) := by
      cases up <;> simp [releasedIds, pass]
    rwa [hids]
  delivered := h.delivered

/-- Storing a message does not disturb the order. -/
theorem Ordered.store (hinv : e.Invariant) (h : Ordered e up R N) {m : μ} {f : List (Forward ι μ)}
    (hf : e.forward = .publish i m :: f) : Ordered { e with
      held := Function.update e.held i (some m)
      forward := f
      replies := e.replies ++ pass up [.received i] } up R N where
  split := h.split
  released := h.released
  published := h.published
  receiving := by
    have hlined := h.receiving
    have hids : pass up (publishedIds e.forward) = pass up [i] ++ pass up (publishedIds f) := by
      rw [hf]
      cases up <;> rfl
    rw [answerIds, hids, ← List.append_assoc] at hlined
    rwa [answerIds, receivedIds_received]
  releasing := by
    have hlined := h.releasing
    rw [← filter_released h, ← filter_waits_store hinv hf, hf] at hlined
    rw [← filter_released h]
    exact hlined
  delivered := by
    rw [h.delivered, undelivered, undelivered, filter_waits_store hinv hf]

omit [DecidableEq ι] in
/-- A released message that waits is held. -/
theorem Ordered.mem_of_waits (h : Ordered e up R N) {held : ι → Option μ} (hx : x ∈ R)
    (hw : Waits held x) :
    held x.id ≠ none := by
  rcases hw with hfalse | hheld
  · rw [h.released x hx] at hfalse
    cases hfalse
  · exact hheld

/-- The message that is delivered is the first of those that wait. -/
theorem Ordered.deliver (hinv : e.Invariant) (h : Ordered e up R N) {m : μ} {f : List (Forward ι μ)}
    (hf : e.forward = .release i :: f) (hheld : e.held i = some m) : Ordered { e with
      held := Function.update e.held i none
      forward := f
      replies := e.replies ++ pass up [.complete i]
      delivered := e.delivered ++ [m] } up R N := by
  obtain ⟨l₁, l₂, hold, hnew⟩ := filter_waits_deliver hinv hf hheld
  have hlined := h.releasing
  have hids : releasedIds e.forward = i :: releasedIds f := by rw [hf]; rfl
  have hmem : i ∈ (R.filter (Waits e.held ·)).map (·.id) := by
    rw [← filter_released h, hold]
    exact List.mem_map.mpr ⟨⟨i, m, true⟩, by simp, rfl⟩
  rw [hids] at hlined
  obtain ⟨is, his, hrest⟩ := hlined.of_mem hmem
  obtain ⟨y, ys, hys, hyi, rfl⟩ := List.map_eq_cons_iff.mp his
  have hfirst : l₁ = [] ∧ l₂ = ys ++ N := by
    have hnodup : ((e.inFlight.filter (Waits e.held ·)).map (·.id)).Nodup :=
      hinv.nodup.sublist (List.filter_sublist.map _)
    rw [h.filter_waits, hys, List.cons_append] at hold
    cases l₁ with
    | nil => exact ⟨rfl, ((List.cons.inj hold).2).symm⟩
    | cons z l₁ =>
        obtain ⟨rfl, htail⟩ := List.cons.inj hold
        rw [h.filter_waits, hys, List.cons_append, htail, List.map_cons, List.nodup_cons] at hnodup
        exact absurd (List.mem_map.mpr ⟨⟨i, m, true⟩, by simp, hyi.symm⟩) hnodup.1
  obtain ⟨rfl, rfl⟩ := hfirst
  have hR : R.filter (Waits (Function.update e.held i none) ·) = ys := by
    have hfilter : e.inFlight.filter (Waits (Function.update e.held i none) ·) = _ := h.filter_waits
    rw [hnew, List.nil_append] at hfilter
    exact (List.append_cancel_right hfilter).symm
  refine ⟨h.split, h.released, h.published, ?_, ?_, ?_⟩
  · have hreceiving := h.receiving
    rw [answerIds, hf] at hreceiving
    rw [answerIds, receivedIds_complete]
    exact hreceiving
  · dsimp only
    rw [hR]
    exact hrest
  · rw [h.delivered, undelivered, undelivered, hold, hnew]
    simp

omit [DecidableEq ι] in
/-- A release under an id that holds nothing is not one of those that are waited for. -/
theorem Ordered.unknown (h : Ordered e up R N) {f : List (Forward ι μ)}
    (hf : e.forward = .release i :: f)
    (hheld : e.held i = none) : Ordered { e with forward := f } up R N where
  split := h.split
  released := h.released
  published := h.published
  receiving := by
    have hlined := h.receiving
    rw [answerIds, hf] at hlined
    exact hlined
  releasing := by
    have hlined := h.releasing
    rw [hf] at hlined
    refine hlined.of_not_mem fun hmem => ?_
    obtain ⟨x, hx, rfl⟩ := List.mem_map.mp hmem
    obtain ⟨hxR, hw⟩ := List.mem_filter.mp hx
    exact h.mem_of_waits hxR (of_decide_eq_true hw) hheld
  delivered := h.delivered

/-- Where the list is split, the ids on the two sides are different. -/
theorem Ordered.id_ne (hinv : e.Invariant) (h : Ordered e up R N) {x y : InFlight ι μ} (hx : x ∈ R)
    (hy : y ∈ N) :
    x.id ≠ y.id := by
  have hnodup := hinv.nodup
  rw [h.split, List.map_append, List.nodup_append] at hnodup
  exact hnodup.2.2 _ (List.mem_map_of_mem hx) _ (List.mem_map_of_mem hy)

theorem releaseOf_of_ne (hxs : ∀ y ∈ xs, y.id ≠ i) : releaseOf i xs = xs := by
  rw [releaseOf, List.map_congr_left fun y hy => if_neg (hxs y hy)]
  exact List.map_id' xs

theorem removeOf_of_ne (hxs : ∀ y ∈ xs, y.id ≠ i) : removeOf i xs = xs :=
  List.filter_eq_self.mpr fun y hy => decide_eq_true (hxs y hy)

/-- The message whose reception is answered first is the first of those that wait for it. -/
theorem Ordered.release (hinv : e.Invariant) (h : Ordered e up R N) {r : List (Reply ι)}
    (hr : e.replies = .received x.id :: r) (hx : x ∈ e.inFlight) (hfirst : x.released = false) :
    ∃ N', Ordered { e with
      inFlight := releaseOf x.id e.inFlight
      forward := e.forward ++ pass up [.release x.id]
      replies := r } up (R ++ [{ x with released := true }]) N' := by
  have hid : Reply.id (.received x.id : Reply ι) = x.id := rfl
  have hp := hinv.phase x.id
  rw [hr, ofId_cons_self hid, findOf_of_mem hinv.nodup hx] at hp
  have hheld := hp.ne_none_of_received hfirst
  have hxN : x ∈ N := by
    rw [h.split] at hx
    rcases List.mem_append.mp hx with hR | hN
    · rw [h.released x hR] at hfirst
      cases hfirst
    · exact hN
  have hlined := h.receiving
  have hids : receivedIds e.replies = x.id :: receivedIds r := by rw [hr]; rfl
  rw [answerIds, hids, List.cons_append] at hlined
  obtain ⟨is, his, hrest⟩ := hlined.of_mem (List.mem_map_of_mem hxN)
  obtain ⟨y, N', rfl, hyx, rfl⟩ := List.map_eq_cons_iff.mp his
  have hyflight : y ∈ e.inFlight := by rw [h.split]; simp
  obtain rfl : y = x := hinv.eq_of_id hx hyflight hyx
  have hN' : ∀ z ∈ N', z.id ≠ y.id := by
    have hnodup := hinv.nodup
    rw [h.split, List.map_append, List.map_cons, List.nodup_append, List.nodup_cons] at hnodup
    exact fun z hz hzy => hnodup.2.1.1 (List.mem_map.mpr ⟨z, hz, hzy⟩)
  refine ⟨N', ?_, ?_, ?_, ?_, ?_, ?_⟩
  · have hR : releaseOf y.id R = R := releaseOf_of_ne fun z hz => h.id_ne hinv hz List.mem_cons_self
    have happ : releaseOf y.id (R ++ y :: N') =
        releaseOf y.id R ++ (if y.id = y.id then { y with released := true } else y) :: releaseOf
        y.id N' := by
      simp only [releaseOf, List.map_append, List.map_cons]
    dsimp only
    rw [h.split, happ, hR, releaseOf_of_ne hN', if_pos rfl]
    simp
  · intro z hz
    rcases List.mem_append.mp hz with hz | hz
    · exact h.released z hz
    · rw [List.mem_singleton.mp hz]
  · exact fun z hz => h.published z (List.mem_cons_of_mem _ hz)
  · rwa [answerIds, publishedIds_release]
  · have hnot : y.id ∉ releasedIds e.forward := by
      rw [mem_releasedIds]
      exact fun hmem => hp.not_mem_of_received hfirst (mem_ofId.mpr ⟨hmem, rfl⟩)
    have hreleasing := h.releasing.pass_self hnot
    rw [releasedIds_release]
    simpa [List.filter_append, Waits, hheld] using hreleasing
  · rw [h.delivered, undelivered_release hinv hr hx hfirst |>.symm]
    rfl

/-- A message that is complete leaves the others in their order. -/
theorem Ordered.finish (hinv : e.Invariant) (h : Ordered e up R N) {r : List (Reply ι)}
    (hr : e.replies = .complete x.id :: r) (hx : x ∈ e.inFlight) (hreleased : x.released = true) :
    Ordered { e with inFlight := removeOf x.id e.inFlight, replies := r } up (removeOf x.id R)
      N := by
  have hxR : x ∈ R := by
    rw [h.split] at hx
    rcases List.mem_append.mp hx with hR | hN
    · exact hR
    · rw [h.published x hN] at hreleased
      cases hreleased
  have hN : removeOf x.id N = N := removeOf_of_ne fun y hy => Ne.symm (h.id_ne hinv hxR hy)
  refine ⟨?_, ?_, h.published, ?_, ?_, ?_⟩
  · have happ : removeOf x.id (R ++ N) = removeOf x.id R ++ removeOf x.id N :=
      List.filter_append _ _
    dsimp only
    rw [h.split, happ, hN]
  · exact fun y hy => h.released y (List.mem_filter.mp hy).1
  · have hlined := h.receiving
    rw [answerIds, hr] at hlined
    exact hlined
  · have hwaits := filter_waits_finish hinv hr hx hreleased fun y (hy : y ∈ R) => by
      rw [h.split]; simp [hy]
    dsimp only
    rw [hwaits]
    exact h.releasing
  · rw [h.delivered, undelivered, undelivered,
      filter_waits_finish hinv hr hx hreleased fun _ hy => hy]

omit [DecidableEq ι] in
/-- An answer that nothing waits for is not one of those that are waited for. -/
theorem Ordered.ignore (h : Ordered e up R N) {p : Reply ι} {r : List (Reply ι)}
    (hr : e.replies = p :: r)
    (hp : ∀ x ∈ e.inFlight, p ≠ if x.released then .complete x.id else .received x.id) :
    Ordered { e with replies := r } up R N where
  split := h.split
  released := h.released
  published := h.published
  receiving := by
    have hlined := h.receiving
    rw [answerIds, hr] at hlined
    cases p with
    | complete i => exact hlined
    | received i =>
        refine Lined.of_not_mem hlined fun hmem => ?_
        obtain ⟨x, hx, rfl⟩ := List.mem_map.mp hmem
        refine hp x (by rw [h.split]; simp [hx]) ?_
        rw [h.published x hx]
        rfl
  releasing := h.releasing
  delivered := h.delivered

/-- **Every move keeps the order.** -/
theorem Ordered.move (hinv : e.Invariant) (h : Ordered e up R N) (hmove : Move up e e') :
    ∃ R' N', Ordered e' up R' N' := by
  cases hmove with
  | submit hfree => exact ⟨_, _, h.submit hinv hfree⟩
  | resend hx => exact ⟨_, _, h.resend _⟩
  | store hf => exact ⟨_, _, h.store hinv hf⟩
  | deliver hf hheld => exact ⟨_, _, h.deliver hinv hf hheld⟩
  | unknown hf hheld => exact ⟨_, _, h.unknown hf hheld⟩
  | release hr hx hfirst =>
      obtain ⟨N', h⟩ := h.release hinv hr hx hfirst
      exact ⟨_, _, h⟩
  | finish hr hx hreleased => exact ⟨_, _, h.finish hinv hr hx hreleased⟩
  | ignore hr hp => exact ⟨_, _, h.ignore hr hp⟩

omit [DecidableEq ι] in
/-- Sending all in flight again publishes those that were not released, in their order. -/
theorem publishedIds_packets (h : Ordered e up R N) :
    publishedIds (e.inFlight.map (·.packet)) = N.map (·.id) := by
  have hR : publishedIds (R.map (·.packet)) = [] := by
    rw [publishedIds, List.filterMap_map, List.filterMap_eq_nil_iff]
    intro x hx
    simp [InFlight.packet, h.released x hx]
  have hN : publishedIds (N.map (·.packet)) = N.map (·.id) := by
    rw [publishedIds, List.filterMap_map, ← List.filterMap_eq_map]
    refine List.filterMap_congr fun x hx => ?_
    simp [InFlight.packet, h.published x hx]
  rw [publishedIds] at hR hN ⊢
  rw [h.split, List.map_append, List.filterMap_append, hR, hN, List.nil_append]

omit [DecidableEq ι] in
/-- Sending all in flight again releases those that were released, in their order. -/
theorem releasedIds_packets (h : Ordered e up R N) :
    releasedIds (e.inFlight.map (·.packet)) = R.map (·.id) := by
  have hR : releasedIds (R.map (·.packet)) = R.map (·.id) := by
    rw [releasedIds, List.filterMap_map, ← List.filterMap_eq_map]
    refine List.filterMap_congr fun x hx => ?_
    simp [InFlight.packet, h.released x hx]
  have hN : releasedIds (N.map (·.packet)) = [] := by
    rw [releasedIds, List.filterMap_map, List.filterMap_eq_nil_iff]
    intro x hx
    simp [InFlight.packet, h.published x hx]
  rw [releasedIds] at hR hN ⊢
  rw [h.split, List.map_append, List.filterMap_append, hR, hN, List.append_nil]

/-- Over a new connection everything comes up in its order. -/
theorem Ordered.connect (hinv : e.Invariant) (h : Ordered e up R N) :
    Ordered { e with forward := e.inFlight.map (·.packet), replies := [] } true R N where
  split := h.split
  released := h.released
  published := h.published
  receiving := by
    have hnodup : (N.map (·.id)).Nodup := by
      refine hinv.nodup.sublist ?_
      rw [h.split]
      exact (List.sublist_append_right R N).map _
    rw [answerIds, publishedIds_packets h]
    exact .of_sublist (List.Sublist.refl _) hnodup
  releasing := by
    have hnodup : (R.map (·.id)).Nodup := by
      refine hinv.nodup.sublist ?_
      rw [h.split]
      exact (List.sublist_append_left R N).map _
    rw [releasedIds_packets h]
    exact .of_sublist (List.filter_sublist.map _) hnodup
  delivered := h.delivered

omit [DecidableEq ι] in
/-- When the connection breaks, what does not arrive any more is the last of what was on its way. -/
theorem Ordered.disconnect (h : Ordered e up R N) {f : List (Forward ι μ)} {r : List (Reply ι)}
    (hf : f <+: e.forward) (hr : r <+: e.replies) :
    Ordered { e with forward := f, replies := r } false R N where
  split := h.split
  released := h.released
  published := h.published
  receiving := by
    obtain ⟨r', hr⟩ := hr
    have hlined := h.receiving
    rw [answerIds, ← hr, receivedIds, List.filterMap_append, List.append_assoc] at hlined
    rw [answerIds, pass_false, List.append_nil]
    exact hlined.of_append
  releasing := by
    obtain ⟨f', hf⟩ := hf
    have hlined := h.releasing
    rw [← hf, releasedIds, List.filterMap_append] at hlined
    exact hlined.of_append
  delivered := h.delivered

/-- Every step over connections that break keeps the order. -/
theorem Ordered.step {c c' : Exchange ι μ × Bool} (hinv : c.1.Invariant) (h : Ordered c.1 c.2 R N)
    (hstep : ReliableStep c c') : ∃ R' N', Ordered c'.1 c'.2 R' N' := by
  cases hstep with
  | move hmove => exact h.move hinv hmove
  | disconnect hf hr => exact ⟨R, N, h.disconnect hf hr⟩
  | connect => exact ⟨R, N, h.connect hinv⟩

end InOrder

/-- **Messages are delivered in the order in which they were submitted**, each once, if nothing but
connections is lost: what was submitted is what was delivered, and after it what still waits. -/
theorem in_order {c : Exchange ι μ × Bool} {up : Bool}
    (h : Relation.ReflTransGen ReliableStep (start, up) c) :
    c.1.submitted = c.1.delivered ++ c.1.undelivered := by
  have hall : c.1.Invariant ∧ ∃ R N, Ordered c.1 c.2 R N := by
    induction h with
    | refl =>
        have hnil : ∀ l : List ι, Lined up [] l := fun l => ⟨[], .nil nofun, fun _ => rfl⟩
        exact ⟨invariant_start, [], [], rfl, nofun, nofun, hnil _, hnil _, rfl⟩
    | tail _ hstep ih =>
        obtain ⟨hinv, R, N, hordered⟩ := ih
        exact ⟨hinv.steps hstep.steps, hordered.step hinv hstep⟩
  obtain ⟨-, R, N, hordered⟩ := hall
  exact hordered.delivered

end Exchange
