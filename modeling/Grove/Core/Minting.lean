import Grove.Core.Nesting

/-! # What an instantiation keeps

A rule for `instantiate` over any world: what its calls keep one by one, and how many of them spawn.  Where the world
refuses nothing, the table alone says which instantiations are accepted (`accepted_iff_fits`). -/

namespace Grove
namespace WorldCalls

variable {σ κ ε : Type}

/-- What the calls of a world keep.  After `n` spawns, none of them refused, `P n` holds, and `Q n` of the entity spawned last;
`E n` is what is left when a call or a bound ends it.  Tags are `plain`. -/
structure Keeps (w : WorldCalls σ κ ε) (plain : String → Prop) (P : ℕ → σ → Prop) (Q : ℕ → σ → EntityId → Prop)
    (E : ℕ → σ → Prop) : Prop where
  ends : ∀ {n s}, P n s → E n s
  forget : ∀ {n s id}, Q n s id → P n s
  spawn : ∀ {n s} template x y ownerId, P n s →
    match w.spawn s template x y ownerId with
    | (s, .error _) => E (n + 1) s
    | (s, .ok id) => Q (n + 1) s id
  applyTransform : ∀ {n s id} transform, Q n s id → Q n (w.applyTransform s id transform) id
  attachToEntity : ∀ {n s id} attachment, Q n s id →
    match w.attachToEntity s id attachment with
    | (s, some _) => E n s
    | (s, none) => Q n s id
  tag : ∀ {n s id name}, plain name → Q n s id → Q n (w.tag s id name) id
  attachTo : ∀ {n s} id parent, P n s →
    match w.attachTo s id parent with
    | (s, some _) => E n s
    | (s, none) => P n s

/-- No more spawns than an instantiation may make; it makes one in any case. -/
def Within (maxNodes : WithTop ℕ) (n : ℕ) : Prop := (n : WithTop ℕ) ≤ max 1 maxNodes

theorem within_maxTemplateNodes {n : ℕ} : Within maxTemplateNodes n ↔ n ≤ maxTemplateNodes := by
  rw [Within, max_eq_right (by decide)]
  exact WithTop.coe_le_coe

/-- What an answer of minting says: it ended within the bound, and an accepted one counts its spawns. -/
structure Minted (maxNodes : WithTop ℕ) (P E : ℕ → σ → Prop) (res : σ × Except (InstantiateError ε) ℕ) : Prop where
  ends : ∃ n : ℕ, Within maxNodes n ∧ E n res.1
  counts : ∀ n : ℕ, res.2 = .ok n → Within maxNodes n ∧ P n res.1

variable {w : WorldCalls σ κ ε} {templates : TemplateRegistry κ} {maxNodes : WithTop ℕ} {plain : String → Prop}
  {P E : ℕ → σ → Prop} {Q : ℕ → σ → EntityId → Prop} {n : ℕ} {s : σ}

theorem Minted.error (hn : Within maxNodes n) (h : E n s) (err : InstantiateError ε) :
    Minted maxNodes P E (s, .error err) := ⟨⟨n, hn, h⟩, fun _ hok => by cases hok⟩

namespace Keeps

variable (h : w.Keeps plain P Q E)
include h

theorem minted (hn : Within maxNodes n) (hs : P n s) : Minted maxNodes P E ((s, .ok n) : σ × Except (InstantiateError ε) ℕ) :=
  ⟨⟨n, hn, h.ends hs⟩, fun _ hok => Except.ok.inj hok ▸ ⟨hn, hs⟩⟩

theorem spawnNode (template : String) (x y : Option JsNumber) (ownerId : Option String) (transform : Option EntityTransform)
    (hs : P n s) :
    match w.spawnNode s template x y ownerId transform with
    | (s, .error _) => E (n + 1) s
    | (s, .ok id) => Q (n + 1) s id := by
  have hspawn := h.spawn template (x.getD (.finite 0)) (y.getD (.finite 0)) (ownerId.getD "") hs
  unfold WorldCalls.spawnNode
  rcases hcall : w.spawn s template (x.getD (.finite 0)) (y.getD (.finite 0)) (ownerId.getD "") with ⟨s₁, err | id⟩
  · rw [hcall] at hspawn
    exact hspawn
  · rw [hcall] at hspawn
    cases transform with
    | none => exact hspawn
    | some transform => exact h.applyTransform transform hspawn

theorem attachAll (id : EntityId) : ∀ (attachments : List κ) {s : σ}, Q n s id →
    match w.attachAll s id attachments with
    | (s, some _) => E n s
    | (s, none) => Q n s id
  | [], _, hs => hs
  | attachment :: rest, s, hs => by
    have hattach := h.attachToEntity attachment hs
    unfold WorldCalls.attachAll
    rcases hcall : w.attachToEntity s id attachment with ⟨s₁, _ | err⟩
    · rw [hcall] at hattach
      exact attachAll id rest hattach
    · rw [hcall] at hattach
      exact hattach

theorem tags (id : EntityId) : ∀ (names : List String) {s : σ}, (∀ name ∈ names, plain name) → Q n s id →
    Q n (names.foldl (fun s name => w.tag s id name) s) id
  | [], _, _, hs => hs
  | name :: names, _, hplain, hs =>
    tags id names (fun name hname => hplain name (List.mem_cons_of_mem _ hname)) (h.tag (hplain name List.mem_cons_self) hs)

/-- The children of one template, given what minting beneath each of them keeps. -/
theorem mintEach {depth : ℕ} (hdepth : depth < maxTemplateDepth)
    (hbelow : ∀ {s} {n : ℕ} entity d, Within maxNodes n → P n s →
      Minted maxNodes P E (w.mintChildren templates maxNodes s entity d (depth + 1) n))
    (parent : EntityId) (ownerId : String) (d : TemplateDef κ) : ∀ (children : List TemplateChild) {s : σ} {n : ℕ},
    Within maxNodes n → P n s →
      Minted maxNodes P E (w.mintEach templates maxNodes s parent ownerId d children depth hdepth n)
  | [], _, _, hn, hs => by
    rw [WorldCalls.mintEach]
    exact h.minted hn hs
  | child :: rest, s, n, hn, hs => by
    rw [WorldCalls.mintEach]
    split_ifs with hbudget
    · exact Minted.error hn (h.ends hs) _
    · have hnext : Within maxNodes (n + 1) := le_max_of_le_right (not_lt.mp hbudget)
      have hspawn := h.spawnNode child.template (child.transform.bind EntityTransform.x)
        (child.transform.bind EntityTransform.y) (some ownerId) child.transform hs
      split
      next s₁ err heq =>
        rw [heq] at hspawn
        exact Minted.error hnext hspawn _
      next s₁ entity heq =>
        rw [heq] at hspawn
        have hattach := h.attachAll entity (scriptsOf templates child.template) hspawn
        split
        next s₂ err heq =>
          rw [heq] at hattach
          exact Minted.error hnext hattach _
        next s₂ heq =>
          rw [heq] at hattach
          have hmove := h.attachTo entity parent (h.forget hattach)
          split
          next s₃ err heq =>
            rw [heq] at hmove
            exact Minted.error hnext hmove _
          next s₃ heq =>
            rw [heq] at hmove
            split
            next => exact mintEach hdepth hbelow parent ownerId d rest hnext hmove
            next childDef _ =>
              have hchildren := hbelow entity childDef hnext hmove
              split
              next s₄ err heq =>
                rw [heq] at hchildren
                exact ⟨hchildren.ends, fun _ hok => by cases hok⟩
              next s₄ minted heq =>
                rw [heq] at hchildren
                exact mintEach hdepth hbelow parent ownerId d rest (hchildren.counts minted rfl).1 (hchildren.counts minted rfl).2

theorem mintChildren (parent : EntityId) (d : TemplateDef κ) (depth : ℕ) {n : ℕ} {s : σ} (hn : Within maxNodes n)
    (hs : P n s) : Minted maxNodes P E (w.mintChildren templates maxNodes s parent d depth n) := by
  rw [WorldCalls.mintChildren]
  split_ifs with hnone hdeep
  · exact h.minted hn hs
  · exact Minted.error hn (h.ends hs) _
  · exact h.mintEach (Nat.lt_of_not_le hdeep) (fun entity d hn hs => mintChildren entity d (depth + 1) hn hs) parent _ d d.children hn hs
termination_by maxTemplateDepth - depth

/-- **Inside its group** an instantiation ends as its calls do, within the bound. -/
theorem mint (template : String) (opts : InstantiateOptions κ) (hplain : ∀ name ∈ opts.tags, plain name) (hs : P 0 s) :
    ∃ n : ℕ, Within maxNodes n ∧ E n (w.mint templates maxNodes s template opts).1 := by
  have hone : Within maxNodes 1 := le_max_left _ _
  have hspawn := h.spawnNode template opts.x opts.y opts.ownerId opts.transform hs
  unfold WorldCalls.mint
  split
  next s₁ err heq =>
    rw [heq] at hspawn
    exact ⟨1, hone, hspawn⟩
  next s₁ root heq =>
    rw [heq] at hspawn
    have hattach := h.attachAll root (scriptsOf templates template) hspawn
    split
    next s₂ err heq =>
      rw [heq] at hattach
      exact ⟨1, hone, hattach⟩
    next s₂ heq =>
      rw [heq] at hattach
      have hattach := h.attachAll root opts.scripts hattach
      split
      next s₃ err heq =>
        rw [heq] at hattach
        exact ⟨1, hone, hattach⟩
      next s₃ heq =>
        rw [heq] at hattach
        have htagged := h.forget (h.tags root opts.tags hplain hattach)
        simp only
        split
        next => exact ⟨1, hone, h.ends htagged⟩
        next d _ =>
          have hchildren : Minted maxNodes P E (w.mintChildren templates maxNodes _ root d 1 1) := h.mintChildren root d 1 hone htagged
          split
          next s₄ err heq =>
            rw [heq] at hchildren
            exact hchildren.ends
          next s₄ minted heq =>
            rw [heq] at hchildren
            exact hchildren.ends

end Keeps

/-! ### Which instantiations are accepted -/

/-- The entities of a template and of what hangs beneath it, `n` levels in all. -/
def nodes (templates : TemplateRegistry κ) : ℕ → String → ℕ
  | 0, _ => 0
  | n + 1, id => 1 + ((templates.childTable.of id).map (nodes templates n)).sum

/-- The entities of templates that hang side by side. -/
def nodesOf (templates : TemplateRegistry κ) (n : ℕ) (children : List TemplateChild) : ℕ :=
  (children.map fun child => nodes templates n child.template).sum

/-- What an answer of minting says, `total` being the entities there are when all are minted. -/
def Counted (maxNodes : WithTop ℕ) (total : ℕ) : Except (InstantiateError ε) ℕ → Prop
  | .ok n => n = total
  | .error (.mintsMore _) => maxNodes < (total : WithTop ℕ)
  | .error _ => True

theorem nodes_of_none {id : String} (hget : templates.get id = none) (n : ℕ) : nodes templates (n + 1) id = 1 := by
  have hnone : templates.childTable.of id = [] := by
    unfold ChildTable.of TemplateRegistry.childTable
    rw [OrderedMap.get_map, show templates.byId.get id = none from hget]
    rfl
  rw [nodes, hnone]
  rfl

theorem nodes_of_some {id : String} {d : TemplateDef κ} (hget : templates.get id = some d) (n : ℕ) :
    nodes templates (n + 1) id = 1 + nodesOf templates n d.children := by
  rw [nodes, childTable_of hget, List.map_map]
  rfl

theorem Counted.of_le {total total' : ℕ} (hle : total ≤ total') {err : InstantiateError ε}
    (h : Counted maxNodes total (.error err)) : Counted maxNodes total' (.error err) := by
  cases err with
  | mintsMore id => exact lt_of_lt_of_le h (WithTop.coe_le_coe.mpr hle)
  | refused | nestsDeeper => trivial

theorem mintEach_counted (w : WorldCalls σ κ ε) {depth : ℕ} (hdepth : depth < maxTemplateDepth)
    (hbelow : ∀ s entity d minted,
      Counted maxNodes (minted + nodesOf templates (maxTemplateDepth - (depth + 1)) d.children)
        (w.mintChildren templates maxNodes s entity d (depth + 1) minted).2)
    (parent : EntityId) (ownerId : String) (d : TemplateDef κ) : ∀ (children : List TemplateChild) (s : σ) (minted : ℕ),
    Counted maxNodes (minted + nodesOf templates (maxTemplateDepth - depth) children)
      (w.mintEach templates maxNodes s parent ownerId d children depth hdepth minted).2
  | [], s, minted => by
    rw [WorldCalls.mintEach]
    rfl
  | child :: rest, s, minted => by
    obtain ⟨n, hn⟩ : ∃ n, maxTemplateDepth - depth = n + 1 := ⟨maxTemplateDepth - (depth + 1), by omega⟩
    have ih := mintEach_counted w hdepth hbelow parent ownerId d rest
    rw [show maxTemplateDepth - (depth + 1) = n by omega] at hbelow
    have hcons : nodesOf templates (n + 1) (child :: rest) =
        nodes templates (n + 1) child.template + nodesOf templates (n + 1) rest := by simp [nodesOf]
    have hone : 1 ≤ nodes templates (n + 1) child.template := Nat.le_add_right _ _
    rw [hn] at ih ⊢
    rw [WorldCalls.mintEach, hcons]
    split_ifs with hbudget
    · have hle : minted + 1 ≤ minted + (nodes templates (n + 1) child.template + nodesOf templates (n + 1) rest) := by omega
      exact lt_of_lt_of_le hbudget (WithTop.coe_le_coe.mpr hle)
    · split
      next => trivial
      next s₁ entity _ =>
        split
        next => trivial
        next s₂ _ =>
          split
          next => trivial
          next s₃ _ =>
            split
            next hnone =>
              rw [nodes_of_none hnone, ← Nat.add_assoc]
              exact ih s₃ (minted + 1)
            next childDef hsome =>
              have hchild := hbelow s₃ entity childDef (minted + 1)
              rw [nodes_of_some hsome]
              split
              next s₄ err heq =>
                rw [heq] at hchild
                exact hchild.of_le (by omega)
              next s₄ minted' heq =>
                rw [heq] at hchild
                have hminted : minted' = minted + 1 + nodesOf templates n childDef.children := hchild
                rw [← Nat.add_assoc, ← Nat.add_assoc, ← hminted]
                exact ih s₄ minted'

theorem mintChildren_counted (w : WorldCalls σ κ ε) (s : σ) (parent : EntityId) (d : TemplateDef κ) (depth minted : ℕ) :
    Counted maxNodes (minted + nodesOf templates (maxTemplateDepth - depth) d.children)
      (w.mintChildren templates maxNodes s parent d depth minted).2 := by
  rw [WorldCalls.mintChildren]
  split_ifs with hnone hdeep
  · rw [List.eq_nil_of_length_eq_zero hnone]
    rfl
  · trivial
  · exact mintEach_counted w (Nat.lt_of_not_le hdeep)
      (fun s entity d minted => mintChildren_counted w s entity d (depth + 1) minted) parent _ d d.children s minted
termination_by maxTemplateDepth - depth

/-- Where nothing else is kept, what is left is the count. -/
theorem keeps_nothing (w : WorldCalls σ κ ε) :
    w.Keeps (fun _ => True) (fun _ _ => True) (fun _ _ _ => True) (fun _ _ => True) where
  ends _ := trivial
  forget _ := trivial
  spawn _ _ _ _ _ := by split <;> trivial
  applyTransform _ _ := trivial
  attachToEntity _ _ := by split <;> trivial
  tag _ _ := trivial
  attachTo _ _ _ := by split <;> trivial

/-- **Both bounds are exact.**  In a world that refuses nothing, an instantiation is accepted when the template nests no
deeper than the levels allowed and has, with all that hangs beneath it, no more entities than one may mint. -/
theorem accepted_iff_fits (templates : TemplateRegistry κ) (w : WorldCalls σ κ Empty) (s : σ) (id : String) (opts : InstantiateOptions κ) :
    (∃ root, (w.instantiate templates maxTemplateNodes s id opts).2 = .ok root) ↔
      ¬ Levels templates.childTable.of (maxTemplateDepth + 1) id ∧ nodes templates maxTemplateDepth id ≤ maxTemplateNodes := by
  have hone : Within maxTemplateNodes 1 := le_max_left _ _
  cases hget : templates.get id with
  | none =>
    refine iff_of_true ?_ ⟨not_levels_of_none hget, (nodes_of_none hget 7).trans_le (by decide)⟩
    unfold WorldCalls.instantiate
    split_ifs
    · split
      next err _ => exact err.elim
      next root _ => exact ⟨root, rfl⟩
    · obtain ⟨s', err, heq⟩ | ⟨s', root, heq⟩ := mint_cases templates maxTemplateNodes w (w.beginGroup s) id opts
      · exact err.elim
      · rw [heq, hget]
        exact ⟨root, rfl⟩
  | some d =>
    obtain rfl : d.id = id := templates.named hget
    rw [instantiate_snd w s opts hget, show nodes templates maxTemplateDepth d.id = _ from nodes_of_some hget 7]
    obtain ⟨s', err, heq⟩ | ⟨s', root, heq⟩ := mint_cases templates maxTemplateNodes w (w.beginGroup s) d.id opts
    · exact err.elim
    · have hnested := mintChildren_spec maxTemplateNodes w (show 1 ≤ maxTemplateDepth by decide) s' root hget 1
      have hcounted : Counted maxTemplateNodes (1 + nodesOf templates 7 d.children) _ := mintChildren_counted w s' root d 1 1
      have hminted : Minted maxTemplateNodes _ _ (w.mintChildren templates maxTemplateNodes s' root d 1 1) :=
        (keeps_nothing w).mintChildren root d 1 hone trivial
      rw [heq, hget]
      simp only
      revert hnested hcounted hminted
      rcases w.mintChildren templates maxTemplateNodes s' root d 1 1 with ⟨s₁, err | n⟩
      · intro hnested hcounted _
        refine iff_of_false ?_ ?_
        · rintro ⟨root, hok⟩
          cases hok
        · rintro ⟨hlevels, hfits⟩
          cases err with
          | nestsDeeper => exact hlevels hnested
          | mintsMore => exact absurd (WithTop.coe_le_coe.mpr hfits) (not_le.mpr hcounted)
          | refused err => exact err.elim
      · intro hnested hcounted hminted
        exact iff_of_true ⟨root, rfl⟩ ⟨hnested, within_maxTemplateNodes.mp (hcounted ▸ (hminted.counts n rfl).1)⟩

end WorldCalls
end Grove
