/-
  Program trees written as JSON and read again.

  Much may be left out or put differently in a program file: a bare name for a parameter, an empty
  text or object for an empty list, a missing key, a number written as a text. Decoding settles all
  of it, so the JSON of a decoded tree has one form, and decoding that gives the same tree
  (`ofJson_toJson_ofJson`).

  A node reads back if its parts do and, should it be a literal, if its content does
  (`readsBack_of_parts`). What is decoded reads back by induction on the size of the JSON value.
-/
import Cadence.Node.Decode
import Cadence.Node.Encode
import Cadence.Proofs.Results

namespace Cadence

open Json (field?)

/-- What a literal of some kind was converted to stays as it is when it is converted again. -/
theorem Literal.ofJson_toJson {value kind : Json} {c : Literal} (h : ofJson value kind = .ok c) :
    ofJson c.toJson kind = .ok c := by
  unfold ofJson at h
  split at h
  · cases h
    rfl
  · obtain ⟨pitches, -, h⟩ := bind_eq_ok.1 h
    obtain ⟨duration, -, h⟩ := bind_eq_ok.1 h
    obtain ⟨amplitude, -, h⟩ := bind_eq_ok.1 h
    cases h
    rfl
  · cases read : value.toDouble with
    | error e => rw [read] at h; cases h
    | ok x => rw [read] at h; cases h; rfl
  · next notPitch notSound notDouble =>
      cases h
      unfold ofJson
      split
      · exact (notPitch rfl).elim
      · exact (notSound rfl).elim
      · exact (notDouble rfl).elim
      · rfl

namespace Node

/-- Decoding the JSON of a node gives the node again. -/
def ReadsBack (n : Node) : Prop := ofJson n.toJson = .ok n

/-! ## Fields -/

section

variable (fields : List (String × Json)) (key : String)

theorem node_eq : node fields key = required fields key >>= ofJson := by
  rw [node, required]
  split <;> simp [*] <;> rfl

theorem nodes_eq : nodes fields key = required fields key >>= nodesOf := by
  rw [nodes, required]
  split <;> simp [*] <;> rfl

theorem nodeOr_eq : nodeOr fields key = (field? key fields).elim (.ok .absent) ofJson := by
  rw [nodeOr]
  split <;> simp [*]

theorem nodesOr_eq : nodesOr fields key = (field? key fields).elim (.ok []) nodesOf := by
  rw [nodesOr]
  split <;> simp [*]

theorem paramsOr_eq : paramsOr fields key = (field? key fields).elim (.ok []) paramsOf := by
  rw [paramsOr]
  split <;> simp [*]

end

/-! ## Writing, then reading -/

theorem ofItems_toItems {ns : List Node} (h : ∀ n ∈ ns, n.ReadsBack) :
    ofItems (toItems ns) = .ok ns := by
  induction ns with
  | nil => rw [toItems, ofItems]
  | cons n ns ih =>
      obtain ⟨hn, hns⟩ := List.forall_mem_cons.1 h
      rw [toItems, ofItems, hn, ih hns]
      rfl

/-- The JSON of a node is no text, so among parameters it is not taken for a bare name. -/
theorem paramItems_toItems {ns : List Node} (h : ∀ n ∈ ns, n.ReadsBack) :
    paramItems (toItems ns) = .ok ns := by
  induction ns with
  | nil => rw [toItems, paramItems]
  | cons n ns ih =>
      obtain ⟨hn, hns⟩ := List.forall_mem_cons.1 h
      rw [toItems, paramItems, hn, ih hns]
      · rfl
      · intro name hname
        cases n <;> simp [toJson, tagged] at hname

/-- The content of a literal is read back from its JSON. -/
def ContentReadsBack : Node → Prop
  | .literal content kind => Literal.ofJson content.toJson kind = .ok content
  | _ => True

/-- A node reads back if its parts do, and its content if it is a literal. -/
theorem readsBack_of_parts {n : Node} (literal : n.ContentReadsBack)
    (h : ∀ p ∈ n.parts, p.ReadsBack) : n.ReadsBack := by
  have items : ∀ ns : List Node, (∀ p ∈ ns, p ∈ n.parts) →
      nodesOf (.list (toItems ns)) = .ok ns := by
    intro ns sub
    rw [nodesOf]
    exact ofItems_toItems fun p hp => h p (sub p hp)
  have params : ∀ ns : List Node, (∀ p ∈ ns, p ∈ n.parts) →
      paramsOf (.list (toItems ns)) = .ok ns := by
    intro ns sub
    rw [paramsOf]
    exact paramItems_toItems fun p hp => h p (sub p hp)
  unfold ReadsBack at h ⊢
  cases n with
  | absent => rw [toJson, ofJson]
  | literal content kind =>
      have back : Literal.ofJson content.toJson kind = .ok content := literal
      simp [toJson, tagged, ofJson, field?, required, back, bind, Except.bind]
      rfl
  | varDecl | funcParam | ident =>
      simp [toJson, tagged, ofJson, field?, required, bind, Except.bind]
      rfl
  | program globals functions =>
      have hg := items globals (by simp +contextual [parts])
      have hf := items functions (by simp +contextual [parts])
      simp [toJson, tagged, ofJson, field?, nodesOr_eq, hg, hf]
      rfl
  | funcDecl name formals decls body =>
      have hp := params formals (by simp +contextual [parts])
      have hd := items decls (by simp +contextual [parts])
      have hb := items body (by simp +contextual [parts])
      simp [toJson, tagged, ofJson, field?, required, nodesOr_eq, paramsOr_eq, hp, hd, hb]
      rfl
  | block ns | arrayLit ns | call _ ns | index _ ns =>
      have hns := items ns (by simp [parts])
      simp [toJson, tagged, ofJson, field?, required, nodes_eq, nodesOr_eq, hns, bind, Except.bind]
      rfl
  | _ =>
      -- each part stands under a key of its own
      simp only [parts, List.forall_mem_cons, List.not_mem_nil, false_implies, implies_true,
        and_true] at h
      simp [toJson, tagged, ofJson, field?, required, node_eq, nodeOr_eq, h, bind, Except.bind]
      rfl

theorem bareParam_readsBack (name : String) : (bareParam name).ReadsBack :=
  readsBack_of_parts trivial (by simp [bareParam, parts])

/-! ## Reading -/

/-- Whatever is decoded from a JSON value below some size reads back. -/
def ReadsBelow (size : Nat) : Prop := ∀ j n, sizeOf j < size → ofJson j = .ok n → n.ReadsBack

section

variable {size : Nat} {items : List Json} {ns : List Node}

theorem ofItems_readsBack (below : ReadsBelow size) (fits : sizeOf items ≤ size)
    (h : ofItems items = .ok ns) : ∀ n ∈ ns, n.ReadsBack := by
  induction items generalizing ns with
  | nil =>
      rw [ofItems] at h
      cases h
      simp
  | cons j rest ih =>
      simp only [List.cons.sizeOf_spec] at fits
      rw [ofItems] at h
      obtain ⟨n, hn, h⟩ := bind_eq_ok.1 h
      obtain ⟨others, hrest, h⟩ := bind_eq_ok.1 h
      cases h
      exact List.forall_mem_cons.2 ⟨below j n (by omega) hn, ih (by omega) hrest⟩

theorem paramItems_readsBack (below : ReadsBelow size) (fits : sizeOf items ≤ size)
    (h : paramItems items = .ok ns) : ∀ n ∈ ns, n.ReadsBack := by
  induction items generalizing ns with
  | nil =>
      rw [paramItems] at h
      cases h
      simp
  | cons j rest ih =>
      simp only [List.cons.sizeOf_spec] at fits
      by_cases bare : ∃ name, j = .text name
      · obtain ⟨name, rfl⟩ := bare
        rw [paramItems] at h
        obtain ⟨others, hrest, h⟩ := bind_eq_ok.1 h
        cases h
        exact List.forall_mem_cons.2 ⟨bareParam_readsBack name, ih (by omega) hrest⟩
      · rw [paramItems] at h
        · obtain ⟨n, hn, h⟩ := bind_eq_ok.1 h
          obtain ⟨others, hrest, h⟩ := bind_eq_ok.1 h
          cases h
          exact List.forall_mem_cons.2 ⟨below j n (by omega) hn, ih (by omega) hrest⟩
        · exact fun name e => bare ⟨name, e⟩

end

theorem nodesOf_readsBack {j : Json} {ns : List Node} (below : ReadsBelow (sizeOf j))
    (h : nodesOf j = .ok ns) : ∀ n ∈ ns, n.ReadsBack := by
  cases j with
  | list items =>
      rw [nodesOf] at h
      exact ofItems_readsBack below (by simp) h
  | text s =>
      rw [nodesOf] at h
      split at h <;> cases h
      simp
  | object fields =>
      rw [nodesOf] at h
      split at h <;> cases h
      simp
  | _ => simp [nodesOf] at h

theorem paramsOf_readsBack {j : Json} {ns : List Node} (below : ReadsBelow (sizeOf j))
    (h : paramsOf j = .ok ns) : ∀ n ∈ ns, n.ReadsBack := by
  cases j with
  | list items =>
      rw [paramsOf] at h
      exact paramItems_readsBack below (by simp) h
  | text s =>
      rw [paramsOf] at h
      cases h
      exact List.forall_mem_map.2 fun c _ => bareParam_readsBack c.toString
  | object fields =>
      rw [paramsOf] at h
      cases h
      exact List.forall_mem_map.2 fun f _ => bareParam_readsBack f.1
  | _ => simp [paramsOf] at h

section

variable {fields : List (String × Json)} {key : String} {n : Node} {ns : List Node}
  (below : ReadsBelow (sizeOf fields))

include below

theorem ReadsBelow.of_field? {v : Json} (found : field? key fields = some v) :
    ReadsBelow (sizeOf v) :=
  fun j n lt => below j n (Nat.lt_trans lt (sizeOf_field?_lt found))

theorem node_readsBack (h : node fields key = .ok n) : n.ReadsBack := by
  rw [node_eq, required] at h
  split at h
  · next v found => exact below v n (sizeOf_field?_lt found) h
  · cases h

theorem nodeOr_readsBack (h : nodeOr fields key = .ok n) : n.ReadsBack := by
  rw [nodeOr_eq] at h
  cases found : field? key fields <;> rw [found] at h
  · cases h
    exact readsBack_of_parts trivial (by simp [parts])
  · exact below _ n (sizeOf_field?_lt found) h

theorem nodes_readsBack (h : nodes fields key = .ok ns) : ∀ n ∈ ns, n.ReadsBack := by
  rw [nodes_eq, required] at h
  split at h
  · next v found => exact nodesOf_readsBack (below.of_field? found) h
  · cases h

theorem nodesOr_readsBack (h : nodesOr fields key = .ok ns) : ∀ n ∈ ns, n.ReadsBack := by
  rw [nodesOr_eq] at h
  cases found : field? key fields <;> rw [found] at h
  · cases h
    simp
  · exact nodesOf_readsBack (below.of_field? found) h

theorem paramsOr_readsBack (h : paramsOr fields key = .ok ns) : ∀ n ∈ ns, n.ReadsBack := by
  rw [paramsOr_eq] at h
  cases found : field? key fields <;> rw [found] at h
  · cases h
    simp
  · exact paramsOf_readsBack (below.of_field? found) h

/-- One case for each kind of node: its parts read back because they are smaller. -/
theorem object_readsBack (h : ofJson (.object fields) = .ok n) : n.ReadsBack := by
  have one : ∀ {key n}, node fields key = .ok n → n.ReadsBack := node_readsBack below
  have oneOr : ∀ {key n}, nodeOr fields key = .ok n → n.ReadsBack := nodeOr_readsBack below
  have many : ∀ {key ns}, nodes fields key = .ok ns → ∀ n ∈ ns, n.ReadsBack :=
    nodes_readsBack below
  have manyOr : ∀ {key ns}, nodesOr fields key = .ok ns → ∀ n ∈ ns, n.ReadsBack :=
    nodesOr_readsBack below
  rw [ofJson] at h
  split at h <;> simp only [bind_eq_ok, reduceCtorEq] at h
  · obtain ⟨globals, hg, functions, hf, h⟩ := h
    cases h
    exact readsBack_of_parts trivial (List.forall_mem_append.2 ⟨manyOr hg, manyOr hf⟩)
  · obtain ⟨typeName, -, name, -, h⟩ := h
    cases h
    exact readsBack_of_parts trivial (by simp [parts])
  · obtain ⟨name, -, h⟩ := h
    cases h
    exact readsBack_of_parts trivial (by simp [parts])
  · obtain ⟨name, -, formals, hp, decls, hd, body, hb, h⟩ := h
    cases h
    refine readsBack_of_parts trivial (List.forall_mem_append.2 ⟨?_, manyOr hb⟩)
    exact List.forall_mem_append.2 ⟨paramsOr_readsBack below hp, manyOr hd⟩
  · obtain ⟨statements, hs, h⟩ := h
    cases h
    exact readsBack_of_parts trivial (many hs)
  · obtain ⟨condition, hc, thenBranch, ht, elseBranch, he, h⟩ := h
    cases h
    exact readsBack_of_parts trivial (by simp [parts, one hc, one ht, oneOr he])
  · obtain ⟨condition, hc, body, hb, h⟩ := h
    cases h
    exact readsBack_of_parts trivial (by simp [parts, one hc, one hb])
  · obtain ⟨init, hi, condition, hc, post, hp, body, hb, h⟩ := h
    cases h
    exact readsBack_of_parts trivial (by simp [parts, oneOr hi, oneOr hc, oneOr hp, one hb])
  · obtain ⟨var, -, array, -, body, hb, h⟩ := h
    cases h
    exact readsBack_of_parts trivial (by simp [parts, one hb])
  · obtain ⟨value, hv, h⟩ := h
    cases h
    exact readsBack_of_parts trivial (by simp [parts, oneOr hv])
  · obtain ⟨expr, he, h⟩ := h
    cases h
    exact readsBack_of_parts trivial (by simp [parts, one he])
  · obtain ⟨target, ht, value, hv, h⟩ := h
    cases h
    exact readsBack_of_parts trivial (by simp [parts, one ht, one hv])
  · obtain ⟨op, -, left, hl, right, hr, h⟩ := h
    cases h
    exact readsBack_of_parts trivial (by simp [parts, one hl, one hr])
  · obtain ⟨op, -, operand, ho, h⟩ := h
    cases h
    exact readsBack_of_parts trivial (by simp [parts, one ho])
  · obtain ⟨value, -, kind, -, content, hc, h⟩ := h
    cases h
    exact readsBack_of_parts (Literal.ofJson_toJson hc) (by simp [parts])
  · obtain ⟨name, -, h⟩ := h
    cases h
    exact readsBack_of_parts trivial (by simp [parts])
  · obtain ⟨elements, he, h⟩ := h
    cases h
    exact readsBack_of_parts trivial (many he)
  · obtain ⟨name, -, args, ha, h⟩ := h
    cases h
    exact readsBack_of_parts trivial (manyOr ha)
  · obtain ⟨array, -, indices, hi, h⟩ := h
    cases h
    exact readsBack_of_parts trivial (many hi)

end

theorem readsBelow (size : Nat) : ReadsBelow size := by
  induction size with
  | zero => exact fun j n lt => absurd lt (Nat.not_lt_zero _)
  | succ size ih =>
      intro j n lt h
      cases j with
      | object fields =>
          have smaller : sizeOf fields ≤ size := by
            simp only [Json.object.sizeOf_spec] at lt
            omega
          exact object_readsBack (fun v m hv => ih v m (Nat.lt_of_lt_of_le hv smaller)) h
      | null =>
          rw [ofJson] at h
          cases h
          exact readsBack_of_parts trivial (by simp [parts])
      | _ => simp [ofJson] at h

/-- A decoded tree is decoded again from its own JSON, and so the JSON of a decoded tree stays as it
    is when it is decoded and encoded once more. -/
theorem ofJson_toJson_ofJson {j : Json} {n : Node} (h : ofJson j = .ok n) :
    ofJson n.toJson = .ok n ∧
    ∀ k, (ofJson j).map toJson = .ok k → (ofJson k).map toJson = .ok k := by
  have back : ofJson n.toJson = .ok n := readsBelow _ j n (Nat.lt_succ_self _) h
  refine ⟨back, fun k hk => ?_⟩
  rw [h] at hk
  cases hk
  rw [back]
  rfl

/-- A key too many, two bare names for parameters written as one text, locals left out, an absent
    statement, and a sound whose pitches and amplitude are texts. -/
theorem ofJson_toJson_ofJson_lax : ∃ j n,
    j = Json.object [("note", .null), ("type", .text "FuncDecl"), ("name", .text "f"),
      ("params", .text "ab"), ("body", .list [.null, .object [("type", .text "ReturnStmt"),
        ("value", .object [("type", .text "Literal"), ("literal_type", .text "sound"),
          ("value", .object [("amplitude", .text " 7"), ("pitches", .text "CD"),
            ("duration", .bool true)])])]])] ∧
    n = Node.funcDecl (.text "f") [bareParam "a", bareParam "b"] [] [.absent, .returnStmt
      (.literal (.sound ⟨[.text "C", .text "D"], 1, 7⟩) (.text "sound"))] ∧
    ofJson j = .ok n ∧ ofJson n.toJson = .ok n := by
  refine ⟨_, _, rfl, rfl, ?decoded, (ofJson_toJson_ofJson ?decoded).1⟩
  have sound : Literal.ofJson (.object [("amplitude", .text " 7"), ("pitches", .text "CD"),
      ("duration", .bool true)]) (.text "sound") =
      .ok (.sound ⟨[.text "C", .text "D"], 1, 7⟩) := rfl
  simp [ofJson, field?, required, nodesOr_eq, paramsOr_eq, nodeOr_eq, nodesOf, paramsOf, ofItems,
    sound, bind, Except.bind]
  rfl

end Node

end Cadence
