import Grove.Core.Templates

/-! # Where the two bounds on nesting agree

`closeTemplates` measures a table before it is used, and `mintChildren` counts levels on the way down.  `Nested` is
what a run of the second says of the table; `closure_exact` puts the two together. -/

namespace Grove

variable {σ κ ε : Type} {templates : TemplateRegistry κ} {maxNodes : WithTop ℕ}

/-- What an answer of `mintChildren` says, `n` being the levels that are too many for the template. -/
def Nested (templates : TemplateRegistry κ) (maxNodes : WithTop ℕ) (n : ℕ) (id : String) :
    Except (InstantiateError ε) ℕ → Prop
  | .ok _ => ¬ Levels templates.childTable.of n id
  | .error (.nestsDeeper _) => Levels templates.childTable.of n id
  | .error (.mintsMore _) => maxNodes ≠ ⊤
  | .error (.refused _) => Nonempty ε

/-- The same of the children still to be minted. -/
def NestedEach (templates : TemplateRegistry κ) (maxNodes : WithTop ℕ) (n : ℕ) (children : List TemplateChild) :
    Except (InstantiateError ε) ℕ → Prop
  | .ok _ => ∀ child ∈ children, ¬ Levels templates.childTable.of n child.template
  | .error (.nestsDeeper _) => ∃ child ∈ children, Levels templates.childTable.of n child.template
  | .error (.mintsMore _) => maxNodes ≠ ⊤
  | .error (.refused _) => Nonempty ε

theorem childTable_of {id : String} {d : TemplateDef κ} (hget : templates.get id = some d) :
    templates.childTable.of id = d.children.map TemplateChild.template := by
  unfold ChildTable.of TemplateRegistry.childTable
  rw [OrderedMap.get_map, show templates.byId.get id = some d from hget]
  rfl

/-- A template that is not in the table has nothing beneath it. -/
theorem not_levels_of_none {id : String} {n : ℕ} (hget : templates.get id = none) :
    ¬ Levels templates.childTable.of (n + 2) id := by
  rw [Levels.succ_iff]
  rintro ⟨b, hb, -⟩
  unfold ChildTable.of TemplateRegistry.childTable at hb
  rw [OrderedMap.get_map, show templates.byId.get id = none from hget] at hb
  cases hb

theorem keys_childTable (templates : TemplateRegistry κ) : templates.childTable.keys = templates.byId.keys := by
  unfold TemplateRegistry.childTable OrderedMap.keys OrderedMap.map
  rw [List.map_map]
  rfl

/-- The children of one template, given what minting beneath each of them says. -/
theorem mintEach_spec (maxNodes : WithTop ℕ) (w : WorldCalls σ κ ε) {depth : ℕ} (hdepth : depth < maxTemplateDepth)
    (hbelow : ∀ s entity childDef minted, templates.get childDef.id = some childDef →
      Nested templates maxNodes (maxTemplateDepth + 1 - depth) childDef.id
        (w.mintChildren templates maxNodes s entity childDef (depth + 1) minted).2)
    (children : List TemplateChild) (s : σ) (parent : EntityId) (ownerId : String) (d : TemplateDef κ) (minted : ℕ) :
    NestedEach templates maxNodes (maxTemplateDepth + 1 - depth) children
      (w.mintEach templates maxNodes s parent ownerId d children depth hdepth minted).2 := by
  induction children generalizing s minted with
  | nil =>
    rw [WorldCalls.mintEach]
    exact fun child hchild => by cases hchild
  | cons child rest ih =>
    -- one child that does not nest too deep leaves the question to the others
    have hcons : ∀ {res : Except (InstantiateError ε) ℕ},
        ¬ Levels templates.childTable.of (maxTemplateDepth + 1 - depth) child.template →
        NestedEach templates maxNodes (maxTemplateDepth + 1 - depth) rest res →
        NestedEach templates maxNodes (maxTemplateDepth + 1 - depth) (child :: rest) res := by
      intro res hnot hrest
      cases res with
      | ok _ => exact fun c hc => (List.mem_cons.mp hc).elim (fun heq => heq ▸ hnot) (hrest c)
      | error err =>
        cases err with
        | nestsDeeper _ =>
          obtain ⟨c, hc, hlevels⟩ := hrest
          exact ⟨c, List.mem_cons_of_mem _ hc, hlevels⟩
        | mintsMore | refused => exact hrest
    rw [WorldCalls.mintEach]
    split_ifs with hbudget
    · exact fun htop => by simp [htop] at hbudget
    · split
      next err _ => exact ⟨err⟩
      next s₁ entity _ =>
        split
        next err _ => exact ⟨err⟩
        next s₂ _ =>
          split
          next err _ => exact ⟨err⟩
          next s₃ _ =>
            split
            next hnone =>
              obtain ⟨n, hn⟩ : ∃ n, maxTemplateDepth + 1 - depth = n + 2 := ⟨maxTemplateDepth - 1 - depth, by omega⟩
              exact hcons (hn ▸ not_levels_of_none hnone) (ih s₃ (minted + 1))
            next childDef hsome =>
              have hname : childDef.id = child.template := templates.named hsome
              have hchild := hbelow s₃ entity childDef (minted + 1) (by rw [hname]; exact hsome)
              rw [hname] at hchild
              split
              next err heq =>
                rw [heq] at hchild
                cases err with
                | nestsDeeper _ => exact ⟨child, List.mem_cons_self, hchild⟩
                | mintsMore | refused => exact hchild
              next s₄ minted' heq =>
                rw [heq] at hchild
                exact hcons hchild (ih s₄ minted')

/-- **Below one entity**, at its level. -/
theorem mintChildren_spec (maxNodes : WithTop ℕ) (w : WorldCalls σ κ ε) {depth : ℕ} (hdepth : depth ≤ maxTemplateDepth) (s : σ)
    (parent : EntityId) {d : TemplateDef κ} (hget : templates.get d.id = some d) (minted : ℕ) :
    Nested templates maxNodes (maxTemplateDepth + 2 - depth) d.id
      (w.mintChildren templates maxNodes s parent d depth minted).2 := by
  obtain ⟨n, hn⟩ : ∃ n, maxTemplateDepth + 2 - depth = n + 2 := ⟨maxTemplateDepth - depth, by omega⟩
  have hunder : Levels templates.childTable.of (n + 2) d.id ↔
      ∃ child ∈ d.children, Levels templates.childTable.of (n + 1) child.template := by
    rw [Levels.succ_iff, childTable_of hget]
    simp only [List.mem_map, exists_exists_and_eq_and]
  rw [hn, WorldCalls.mintChildren]
  split_ifs with hnone hlast
  · show ¬ Levels _ _ _
    rw [hunder, List.eq_nil_of_length_eq_zero hnone]
    simp
  · show Levels _ _ _
    obtain ⟨child, hchild⟩ := List.exists_mem_of_length_pos (Nat.pos_of_ne_zero hnone)
    rw [hunder]
    exact ⟨child, hchild, (show n = 0 by omega) ▸ Levels.one _⟩
  · have heach := mintEach_spec maxNodes w (Nat.lt_of_not_le hlast)
      (fun s entity childDef minted hchild => by
        have hrec := mintChildren_spec maxNodes w (show depth + 1 ≤ maxTemplateDepth by omega) s entity hchild minted
        rwa [show maxTemplateDepth + 2 - (depth + 1) = maxTemplateDepth + 1 - depth by omega] at hrec)
      d.children s parent (w.ownerId s parent) d minted
    rw [show maxTemplateDepth + 1 - depth = n + 1 by omega] at heach
    revert heach
    cases (w.mintEach templates maxNodes s parent (w.ownerId s parent) d d.children depth (Nat.lt_of_not_le hlast)
      minted).2 with
    | ok _ =>
      intro hall hlevels
      obtain ⟨child, hchild, hdeep⟩ := hunder.mp hlevels
      exact hall child hchild hdeep
    | error err =>
      match err with
      | .nestsDeeper _ => exact hunder.mpr
      | .mintsMore _ => exact fun h => h
      | .refused _ => exact fun h => h
termination_by maxTemplateDepth - depth

/-- An instantiation was refused for its nesting. -/
def NestingRefused (res : σ × Except (InstantiateError ε) EntityId) : Prop :=
  ∃ id, res.2 = .error (.nestsDeeper id)

/-- A root is refused by the world, or minted; then its children are. -/
theorem mint_cases (templates : TemplateRegistry κ) (maxNodes : WithTop ℕ) (w : WorldCalls σ κ ε) (s : σ) (id : String) (opts : InstantiateOptions κ) :
    (∃ s' err, w.mint templates maxNodes s id opts = (s', .error (.refused err))) ∨
      ∃ s' root, w.mint templates maxNodes s id opts =
        match templates.get id with
        | none => (s', .ok root)
        | some d =>
          match w.mintChildren templates maxNodes s' root d 1 1 with
          | (s, .error err) => (s, .error err)
          | (s, .ok _) => (s, .ok root) := by
  unfold WorldCalls.mint
  split
  next s₁ err _ => exact .inl ⟨s₁, err, rfl⟩
  next s₁ root _ =>
    split
    next s₂ err _ => exact .inl ⟨s₂, err, rfl⟩
    next s₂ _ =>
      split
      next s₃ err _ => exact .inl ⟨s₃, err, rfl⟩
      next s₃ _ => exact .inr ⟨_, root, rfl⟩

/-- What an answer of `mint` says. -/
theorem mint_spec (maxNodes : WithTop ℕ) (w : WorldCalls σ κ ε) (s : σ) (opts : InstantiateOptions κ) {id : String} {d : TemplateDef κ}
    (hget : templates.get id = some d) :
    Nested templates maxNodes (maxTemplateDepth + 1) id
      ((w.mint templates maxNodes s id opts).2.map fun _ => 0) := by
  obtain rfl : d.id = id := templates.named hget
  obtain ⟨s', err, heq⟩ | ⟨s', root, heq⟩ := mint_cases templates maxNodes w s d.id opts
  · rw [heq]
    exact ⟨err⟩
  · have hspec := mintChildren_spec maxNodes w (show 1 ≤ maxTemplateDepth by decide) s' root hget 1
    rw [heq, hget]
    simp only
    revert hspec
    cases hres : w.mintChildren templates maxNodes s' root d 1 1 with
    | mk s₁ res =>
      cases res with
      | ok _ => exact fun h => h
      | error err =>
        cases err with
        | nestsDeeper | mintsMore | refused => exact fun h => h

/-- An instantiation of a template in the table is a group around its minting. -/
theorem instantiate_snd (w : WorldCalls σ κ ε) (s : σ) (opts : InstantiateOptions κ) {id : String} {d : TemplateDef κ}
    (hget : templates.get id = some d) :
    (w.instantiate templates maxNodes s id opts).2 = (w.mint templates maxNodes (w.beginGroup s) id opts).2 := by
  unfold WorldCalls.instantiate
  rw [if_neg (by simp [hget])]

/-- A refusal for its nesting is of a template that nests too deep, whatever else the world refuses. -/
theorem levels_of_refused (w : WorldCalls σ κ ε) (s : σ) (opts : InstantiateOptions κ) {id : String}
    (h : NestingRefused (w.instantiate templates maxNodes s id opts)) :
    id ∈ templates.childTable.keys ∧ Levels templates.childTable.of (maxTemplateDepth + 1) id := by
  obtain ⟨deep, h⟩ := h
  cases hget : templates.get id with
  | none =>
    unfold WorldCalls.instantiate at h
    split_ifs at h
    · revert h
      split <;> simp
    · obtain ⟨s', err, heq⟩ | ⟨s', root, heq⟩ :=
        mint_cases templates maxNodes w (w.beginGroup s) id opts
      · rw [heq] at h
        cases h
      · rw [heq, hget] at h
        cases h
  | some d =>
    refine ⟨?_, ?_⟩
    · rw [keys_childTable]
      exact OrderedMap.mem_keys_iff _ |>.mpr ⟨d, hget⟩
    · rw [instantiate_snd w s opts hget] at h
      have hspec := mint_spec maxNodes w (w.beginGroup s) opts hget
      rw [h] at hspec
      exact hspec

/-- In a world that refuses nothing, a template that nests too deep is refused for it. -/
theorem refused_of_levels (w : WorldCalls σ κ Empty) (s : σ) (opts : InstantiateOptions κ) {id : String}
    (hid : id ∈ templates.childTable.keys) (hlevels : Levels templates.childTable.of (maxTemplateDepth + 1) id) :
    NestingRefused (w.instantiate templates ⊤ s id opts) := by
  rw [keys_childTable] at hid
  obtain ⟨d, hget⟩ := OrderedMap.mem_keys_iff _ |>.mp hid
  unfold NestingRefused
  rw [instantiate_snd w s opts hget]
  have hspec := mint_spec ⊤ w (w.beginGroup s) opts hget
  cases hres : (w.mint templates ⊤ (w.beginGroup s) id opts).2 with
  | ok _ =>
    rw [hres] at hspec
    exact absurd hlevels hspec
  | error err =>
    rw [hres] at hspec
    match err with
    | .nestsDeeper deep => exact ⟨deep, rfl⟩
    | .mintsMore _ => exact absurd rfl hspec
    | .refused err => exact err.elim

/-- **The closure check is exact, and agrees with the runtime**: it refuses the tables with a template that reaches
itself or nests past the bound; these are the tables that some instantiation is refused for, in a world that refuses
nothing else, and no other table is in any world. -/
theorem closure_exact (templates : TemplateRegistry κ) (path : String) :
    ((∃ err, templates.childTable.closeTemplates path = .error err) ↔
      (∃ id ∈ templates.byId.keys, Relation.TransGen templates.childTable.Hangs id id) ∨
        ∃ id ∈ templates.byId.keys, ∃ n, maxTemplateDepth < n ∧ Levels templates.childTable.of n id) ∧
      (∀ {σ : Type} (w : WorldCalls σ κ Empty) (s : σ), (∃ id opts, NestingRefused (w.instantiate templates ⊤ s id opts)) ↔
        ∃ err, templates.childTable.closeTemplates path = .error err) ∧
      ∀ {σ ε : Type} (w : WorldCalls σ κ ε) (maxNodes : WithTop ℕ) (s : σ) (id : String) (opts : InstantiateOptions κ),
        NestingRefused (w.instantiate templates maxNodes s id opts) →
          ∃ err, templates.childTable.closeTemplates path = .error err := by
  have hrefused := templates.childTable.refused_iff_levels path
  have hworld : ∀ {σ ε : Type} (w : WorldCalls σ κ ε) (maxNodes : WithTop ℕ) (s : σ) (id : String)
      (opts : InstantiateOptions κ), NestingRefused (w.instantiate templates maxNodes s id opts) →
        ∃ err, templates.childTable.closeTemplates path = .error err := by
    intro σ ε w maxNodes s id opts h
    obtain ⟨hid, hlevels⟩ := levels_of_refused w s opts h
    exact hrefused.mpr ⟨id, hid, hlevels⟩
  refine ⟨?_, fun w s => ⟨fun ⟨id, opts, h⟩ => hworld w ⊤ s id opts h, fun h => ?_⟩, hworld⟩
  · rw [hrefused, keys_childTable]
    constructor
    · rintro ⟨id, hid, hlevels⟩
      exact .inr ⟨id, hid, _, Nat.lt_succ_self _, hlevels⟩
    · rintro (⟨id, hid, hcycle⟩ | ⟨id, hid, n, hn, hlevels⟩)
      · exact ⟨id, hid, Levels.of_cycle hcycle _⟩
      · exact ⟨id, hid, hlevels.mono (Nat.succ_pos _) hn⟩
  · obtain ⟨id, hid, hlevels⟩ := hrefused.mp h
    exact ⟨id, ⟨none, none, none, [], [], none⟩, refused_of_levels w s _ hid hlevels⟩

end Grove
