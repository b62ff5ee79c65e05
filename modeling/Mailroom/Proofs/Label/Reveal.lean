import Mailroom.Proofs.Label.Walk

/-! What is shown of the tree, and what becomes of evicted nodes. Revealing a tree shows the
children of every node in it and changes nothing else; it ends by itself when the tree has a height.
-/

namespace Mailroom.Label

namespace Directory

/-- The nodes of the trees that begin at some nodes: those, and the children of all in them. -/
inductive Below (d : Directory) (refs : List NodeRef) : NodeRef → Prop
  | here {r} : r ∈ refs → Below d refs r
  | child {q r} : Below d refs q → r ∈ (d.node q).children.values → Below d refs r

/-- The nodes of the tree of a directory. -/
def InTree (d : Directory) (r : NodeRef) : Prop := d.Below d.roots.values r

namespace Below

variable {d e : Directory} {refs few : List NodeRef} {q r : NodeRef}

theorem mono (h : d.Below few r) (hsub : few ⊆ refs) : d.Below refs r := by
  induction h with
  | here hr => exact here (hsub hr)
  | child _ hr ih => exact child ih hr

theorem of_child (hq : d.Below refs q) (h : d.Below (d.node q).children.values r) :
    d.Below refs r := by
  induction h with
  | here hr => exact child hq hr
  | child _ hr ih => exact child ih hr

theorem eq_or_below (h : d.Below refs r) :
    ∃ q ∈ refs, r = q ∨ d.Below (d.node q).children.values r := by
  induction h with
  | @here r hr => exact ⟨r, hr, Or.inl rfl⟩
  | child _ hr ih =>
    obtain ⟨q, hq, rfl | hbelow⟩ := ih
    · exact ⟨_, hq, Or.inr (here hr)⟩
    · exact ⟨q, hq, Or.inr (child hbelow hr)⟩

theorem congr (hchildren : ∀ r, (e.node r).children = (d.node r).children)
    (h : d.Below refs r) : e.Below refs r := by
  induction h with
  | here hr => exact here hr
  | child _ hr ih => exact child ih (by rwa [hchildren])

end Below

/-- Trees of a height: along every step down it falls. -/
def HasHeight (d : Directory) (refs : List NodeRef) (height : NodeRef → Nat) : Prop :=
  ∀ q, d.Below refs q → ∀ c ∈ (d.node q).children.values, height c < height q

theorem HasHeight.child {d : Directory} {refs : List NodeRef} {height : NodeRef → Nat}
    (h : d.HasHeight refs height) {q : NodeRef} (hq : d.Below refs q) :
    d.HasHeight (d.node q).children.values height :=
  fun p hp c hc => h p (hq.of_child hp) c hc

/-- One directory differs from another in what is shown at most, and shows of a node what it showed
before or the node's children. -/
structure Reveals (d e : Directory) : Prop where
  directory : e = { d with nodes := e.nodes }
  size : e.nodes.size = d.nodes.size
  node : ∀ r, ∃ shown, e.node r = { d.node r with shown } ∧
    (shown = (d.node r).shown ∨ shown = (d.node r).children)

namespace Reveals

variable {d e f : Directory}

theorem refl (d : Directory) : Reveals d d := ⟨rfl, rfl, fun _ => ⟨_, rfl, Or.inl rfl⟩⟩

theorem children (h : Reveals d e) (r : NodeRef) :
    (e.node r).children = (d.node r).children := by
  obtain ⟨_, hnode, _⟩ := h.node r
  rw [hnode]

theorem has_iff (h : Reveals d e) {r : NodeRef} : e.Has r ↔ d.Has r := by
  rw [Has, Has, h.size]

theorem trans (h : Reveals d e) (h' : Reveals e f) : Reveals d f := by
  refine ⟨by rw [h'.directory, h.directory], h'.size.trans h.size, fun r => ?_⟩
  obtain ⟨shown, hnode, hshown⟩ := h.node r
  obtain ⟨shown', hnode', hshown'⟩ := h'.node r
  refine ⟨shown', by rw [hnode', hnode], ?_⟩
  rcases hshown' with rfl | rfl
  · rw [hnode]
    exact hshown
  · exact Or.inr (h.children r)

/-- What is shown rightly stays so. -/
theorem keeps (h : Reveals d e) {r : NodeRef} (hr : (d.node r).shown = (d.node r).children) :
    (e.node r).shown = (e.node r).children := by
  obtain ⟨shown, hnode, hshown⟩ := h.node r
  rw [hnode]
  rcases hshown with rfl | rfl
  · exact hr
  · rfl

theorem showNode (d : Directory) (r : NodeRef) :
    Reveals d (d.modifyNode r fun n => { n with shown := (d.node r).children }) := by
  refine ⟨rfl, by simp [modifyNode], fun q => ?_⟩
  by_cases hq : q = r
  · subst hq
    by_cases hhas : d.Has q
    · exact ⟨_, node_modifyNode_self _ hhas, Or.inr rfl⟩
    · exact ⟨_, node_modifyNode_of_not_has _ hhas, Or.inl rfl⟩
  · exact ⟨_, node_modifyNode_of_ne _ hq, Or.inl rfl⟩

theorem hasHeight (h : Reveals d e) {refs : List NodeRef} {height : NodeRef → Nat}
    (hh : d.HasHeight refs height) : e.HasHeight refs height := by
  intro q hq c hc
  rw [h.children] at hc
  exact hh q (hq.congr fun r => (h.children r).symm) c hc

end Reveals

end Directory

namespace Rebuild

open Directory

/-- The trees that begin at some nodes, revealed one after the other. -/
theorem reveal_cons (fuel : Nat) (q : NodeRef) (refs : List NodeRef) (d : Directory) :
    reveal (fuel + 1) (q :: refs) d =
      reveal (fuel + 1) refs (reveal fuel (d.node q).children.values
        (d.modifyNode q fun n => { n with shown := (d.node q).children })) := rfl

theorem reveal_nil (fuel : Nat) (d : Directory) : reveal fuel [] d = d := by
  cases fuel <;> rfl

theorem reveal_reveals (fuel : Nat) : ∀ (refs : List NodeRef) (d : Directory),
    Reveals d (reveal fuel refs d) := by
  induction fuel with
  | zero => exact fun _ d => Reveals.refl d
  | succ fuel ih =>
    intro refs
    induction refs with
    | nil => exact fun d => Reveals.refl d
    | cons q refs ihrefs =>
      intro d
      rw [reveal_cons]
      exact ((Reveals.showNode d q).trans (ih _ _)).trans (ihrefs _)

/-- After revealing, every node of the trees shows its children. -/
theorem reveal_shown {height : NodeRef → Nat} (fuel : Nat) :
    ∀ (refs : List NodeRef) (d : Directory), d.HasHeight refs height →
      (∀ q ∈ refs, height q < fuel) → ∀ r, d.Below refs r → d.Has r →
      ((reveal fuel refs d).node r).shown = ((reveal fuel refs d).node r).children := by
  induction fuel with
  | zero =>
    intro refs d _ hfuel r hr _
    obtain ⟨q, hq, _⟩ := hr.eq_or_below
    exact absurd (hfuel q hq) (Nat.not_lt_zero _)
  | succ fuel ih =>
    intro refs
    induction refs with
    | nil =>
      intro d _ _ r hr _
      obtain ⟨q, hq, _⟩ := hr.eq_or_below
      simp at hq
    | cons q refs ihrefs =>
      intro d hheight hfuel r hr hhas
      have hq : d.Below (q :: refs) q := Below.here List.mem_cons_self
      have hone := Reveals.showNode d q
      have hsub := reveal_reveals fuel (d.node q).children.values
        (d.modifyNode q fun n => { n with shown := (d.node q).children })
      have hboth := hone.trans hsub
      rw [reveal_cons]
      obtain ⟨p, hp, hbelow⟩ := hr.eq_or_below
      rcases List.mem_cons.mp hp with rfl | hrest
      · refine (reveal_reveals (fuel + 1) refs _).keeps ?_
        rcases hbelow with rfl | hbelow
        · refine hsub.keeps ?_
          rw [node_modifyNode_self _ hhas]
        · refine ih _ _ (hone.hasHeight (hheight.child hq)) (fun c hc => ?_) r
            (hbelow.congr fun r => hone.children r) (hone.has_iff.mpr hhas)
          have := hheight p hq c hc
          have := hfuel p List.mem_cons_self
          omega
      · have htail : d.HasHeight refs height := fun q hq =>
          hheight q (hq.mono (List.subset_cons_self _ _))
        refine ihrefs _ (hboth.hasHeight htail) (fun q hq => hfuel q (List.mem_cons_of_mem _ hq)) r
          ?_ (hboth.has_iff.mpr hhas)
        refine Below.congr (fun r => hboth.children r) ?_
        rcases hbelow with rfl | hbelow
        · exact Below.here hrest
        · exact (Below.here hrest).of_child hbelow

/-- Fuel beyond the height of the trees changes nothing: the recursion ends by itself. -/
theorem reveal_fuel {height : NodeRef → Nat} (n : Nat) :
    ∀ (m : Nat) (refs : List NodeRef) (d : Directory), d.HasHeight refs height →
      (∀ q ∈ refs, height q < n) → (∀ q ∈ refs, height q < m) →
      reveal n refs d = reveal m refs d := by
  induction n with
  | zero =>
    intro m refs d _ hn _
    cases refs with
    | nil => rw [reveal_nil, reveal_nil]
    | cons q _ => exact absurd (hn q List.mem_cons_self) (Nat.not_lt_zero _)
  | succ n ih =>
    intro m refs
    induction refs with
    | nil =>
      intro d _ _ _
      rw [reveal_nil, reveal_nil]
    | cons q refs ihrefs =>
      intro d hheight hn hm
      have hq : d.Below (q :: refs) q := Below.here List.mem_cons_self
      have hqn := hn q List.mem_cons_self
      have hqm := hm q List.mem_cons_self
      obtain ⟨m, rfl⟩ : ∃ k, m = k + 1 := ⟨m - 1, by omega⟩
      have hone := Reveals.showNode d q
      have hboth := hone.trans (reveal_reveals n (d.node q).children.values _)
      have hbelow : ∀ c ∈ (d.node q).children.values, height c < n ∧ height c < m := by
        intro c hc
        have := hheight q hq c hc
        omega
      have htail : d.HasHeight refs height := fun q hq =>
        hheight q (hq.mono (List.subset_cons_self _ _))
      rw [reveal_cons, reveal_cons, ihrefs _ (hboth.hasHeight htail)
        (fun q hq => hn q (List.mem_cons_of_mem _ hq))
        (fun q hq => hm q (List.mem_cons_of_mem _ hq)),
        ih m _ _ (hone.hasHeight (hheight.child hq)) (fun c hc => (hbelow c hc).1)
        (fun c hc => (hbelow c hc).2)]

end Rebuild

namespace Directory

/-! ### Evicting -/

theorem has_foldl_modifyNode {f : Node → Node} (refs : List NodeRef) (d : Directory) {r : NodeRef} :
    (refs.foldl (fun d r => d.modifyNode r f) d).Has r ↔ d.Has r := by
  induction refs generalizing d with
  | nil => exact Iff.rfl
  | cons q refs ih => rw [List.foldl_cons, ih, has_modifyNode]

theorem node_foldl_of_not_mem {f : Node → Node} {refs : List NodeRef} {r : NodeRef}
    (h : r ∉ refs) (d : Directory) :
    (refs.foldl (fun d r => d.modifyNode r f) d).node r = d.node r := by
  induction refs generalizing d with
  | nil => rfl
  | cons q refs ih =>
    obtain ⟨hne, hrest⟩ := not_or.mp (List.mem_cons.not.mp h)
    rw [List.foldl_cons, ih hrest, node_modifyNode_of_ne _ hne]

/-- A change that is the same when made twice reaches every listed node. -/
theorem node_foldl_of_mem {f : Node → Node} (hf : ∀ n, f (f n) = f n) {refs : List NodeRef}
    {r : NodeRef} (h : r ∈ refs) (d : Directory) (hr : d.Has r) :
    (refs.foldl (fun d r => d.modifyNode r f) d).node r = f (d.node r) := by
  induction refs generalizing d with
  | nil => simp at h
  | cons q refs ih =>
    rw [List.foldl_cons]
    by_cases hmem : r ∈ refs
    · rw [ih hmem _ ((has_modifyNode f).mpr hr)]
      by_cases hq : r = q
      · rw [hq, node_modifyNode_self f (hq ▸ hr), hf]
      · rw [node_modifyNode_of_ne f hq]
    · have hq : r = q := (List.mem_cons.mp h).resolve_right hmem
      rw [node_foldl_of_not_mem hmem, hq, node_modifyNode_self f (hq ▸ hr)]

theorem foldl_modifyNode_directory {f : Node → Node} (refs : List NodeRef) (d : Directory) :
    refs.foldl (fun d r => d.modifyNode r f) d =
      { d with nodes := (refs.foldl (fun d r => d.modifyNode r f) d).nodes } := by
  induction refs generalizing d with
  | nil => rfl
  | cons q refs ih =>
    rw [List.foldl_cons, ih]
    rfl

end Directory

end Mailroom.Label
