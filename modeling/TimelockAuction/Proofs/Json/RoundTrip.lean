import Mathlib
import TimelockAuction.Json.Parser
import TimelockAuction.Json.Printer
import TimelockAuction.Proofs.Json.Token

/-!
# Reading undoes writing

A value whose scalars have spellings is read back from its text, arrays and objects of any depth and
repeated names included. Its tokens are cut off the text, and the machine reads them back: in front of
whatever follows, it puts the value into the innermost open frame.

* `IsSpelled.cutsOff`: the tokens of a value.
* `run_tokens`: the value of its tokens, in any open frames.
* `parse?_render`: both together.
-/

namespace TimelockAuction.Json

/-- A value all of whose scalars JSON has spellings for. -/
inductive IsSpelled : Json → Prop
  | scalar {s : Scalar} : s.IsSpelled → IsSpelled (.scalar s)
  | array {items : List Json} : (∀ v ∈ items, IsSpelled v) → IsSpelled (.array items)
  | object {members : List (Text × Json)} : (∀ member ∈ members, (Scalar.text member.1).IsSpelled) →
      (∀ member ∈ members, IsSpelled member.2) → IsSpelled (.object members)

/-! ## Items and members -/

theorem itemTokens_cons_cons (v w : Json) (items : List Json) :
    itemTokens (v :: w :: items) = v.tokens ++ .comma :: itemTokens (w :: items) := by
  rw [itemTokens]
  simp

theorem memberTokens_singleton (name : Text) (v : Json) :
    memberTokens [(name, v)] = [.scalar (.text name)] ++ .colon :: v.tokens := by
  rw [memberTokens]
  rfl

theorem memberTokens_cons_cons (name : Text) (v : Json) (next : Text × Json)
    (members : List (Text × Json)) :
    memberTokens ((name, v) :: next :: members) =
      ([.scalar (.text name)] ++ .colon :: v.tokens) ++ .comma :: memberTokens (next :: members) := by
  rw [memberTokens]
  · simp
  · simp

/-! ## Cutting -/

/-- A bracket or a separator. -/
def Token.IsMark (t : Token) : Prop := ∀ s, t ≠ .scalar s

/-- The tokens are cut off their spellings in front of any text that does not go on with a word. -/
def CutsOff (tokens : List Token) : Prop :=
  ∀ rest, Delimits rest →
    cut .between (tokens.flatMap Token.spelling ++ rest) = (cut .between rest).map (tokens ++ ·)

/-- A mark is one character, which says by itself what it is. -/
theorem Token.IsMark.exists_open {t : Token} (h : t.IsMark) :
    ∃ c, t.spelling = [c] ∧ Mode.open c = ([t], .between) := by
  cases t with
  | scalar s => exact absurd rfl (h s)
  | openArray | closeArray | openObject | closeObject | comma | colon => exact ⟨_, rfl, rfl⟩

theorem cut_mark {t : Token} (h : t.IsMark) (rest : List Char) :
    cut .between (t.spelling ++ rest) = (cut .between rest).map (t :: ·) := by
  obtain ⟨c, hspelling, hopen⟩ := h.exists_open
  have hstep : Mode.between.step c = some ([t], .between) := congrArg some hopen
  rw [hspelling, List.singleton_append, cut_of_step hstep]
  rfl

theorem delimits_mark {t : Token} (h : t.IsMark) (rest : List Char) :
    Delimits (t.spelling ++ rest) := by
  obtain ⟨c, hspelling, hopen⟩ := h.exists_open
  rw [hspelling]
  intro d hd seen
  cases hd
  rw [hopen]
  exact nofun

namespace CutsOff

variable {t : Token} {tokens later : List Token}

theorem nil : CutsOff [] := by
  intro rest _
  simp

theorem scalar {s : Scalar} (h : s.IsSpelled) : CutsOff [.scalar s] := by
  intro rest hrest
  rw [List.flatMap_singleton]
  exact cut_scalar h fun _ => hrest

theorem mark_cons (ht : t.IsMark) (h : CutsOff tokens) : CutsOff (t :: tokens) := by
  intro rest hrest
  rw [List.flatMap_cons, List.append_assoc, cut_mark ht, h rest hrest, Option.map_map]
  rfl

/-- A mark ends what stands in front of it. -/
theorem append_mark (h : CutsOff tokens) (ht : t.IsMark) (hlater : CutsOff later) :
    CutsOff (tokens ++ t :: later) := by
  intro rest hrest
  have hmark := mark_cons ht hlater rest hrest
  rw [List.flatMap_append, List.append_assoc]
  rw [List.flatMap_cons, List.append_assoc] at hmark ⊢
  rw [h _ (delimits_mark ht _), hmark, Option.map_map]
  congr 1
  funext read
  simp

end CutsOff

theorem cutsOff_itemTokens {items : List Json} (h : ∀ v ∈ items, CutsOff v.tokens) :
    CutsOff (itemTokens items) := by
  induction items with
  | nil => exact CutsOff.nil
  | cons v items ih =>
    have hv := h v List.mem_cons_self
    cases items with
    | nil => rwa [itemTokens]
    | cons w items =>
      have hlater := ih fun x hx => h x (List.mem_cons_of_mem _ hx)
      rw [itemTokens_cons_cons]
      exact hv.append_mark (t := .comma) nofun hlater

theorem cutsOff_memberTokens {members : List (Text × Json)}
    (hnames : ∀ member ∈ members, (Scalar.text member.1).IsSpelled)
    (h : ∀ member ∈ members, CutsOff member.2.tokens) : CutsOff (memberTokens members) := by
  induction members with
  | nil => exact CutsOff.nil
  | cons member members ih =>
    obtain ⟨name, v⟩ := member
    have hname := CutsOff.scalar (hnames _ List.mem_cons_self)
    have hmember := hname.append_mark (t := .colon) nofun (h _ List.mem_cons_self)
    cases members with
    | nil => rwa [memberTokens_singleton]
    | cons next members =>
      have hlater := ih (fun x hx => hnames x (List.mem_cons_of_mem _ hx))
        fun x hx => h x (List.mem_cons_of_mem _ hx)
      rw [memberTokens_cons_cons]
      exact hmember.append_mark (t := .comma) nofun hlater

theorem IsSpelled.cutsOff {v : Json} (h : v.IsSpelled) : CutsOff v.tokens := by
  induction h with
  | scalar h =>
    rw [tokens]
    exact CutsOff.scalar h
  | array _ ih =>
    rw [tokens]
    have hitems := (cutsOff_itemTokens ih).append_mark (t := .closeArray) nofun CutsOff.nil
    exact hitems.mark_cons (t := .openArray) nofun
  | object hnames _ ih =>
    rw [tokens]
    have hmembers :=
      (cutsOff_memberTokens hnames ih).append_mark (t := .closeObject) nofun CutsOff.nil
    exact hmembers.mark_cons (t := .openObject) nofun

/-! ## The machine -/

section Machine

variable {v : Json} {stack : List Frame} {rest : List Token}

theorem run_of_step {state next : State} {t : Token} (h : state.step t = some next) :
    state.run (t :: rest) = next.run rest := by
  rw [State.run, h]
  rfl

/-- The machine reads the value back, into whatever frames are open. -/
def IsRead (v : Json) : Prop :=
  ∀ stack rest, (State.value stack).run (v.tokens ++ rest) = (State.complete v stack).run rest

/-- The first item of an array is read like any other. -/
theorem run_firstItem (v : Json) (stack : List Frame) (rest : List Token) :
    (State.firstItem stack).run (v.tokens ++ rest) =
      (State.value (.array [] :: stack)).run (v.tokens ++ rest) := by
  cases v with
  | scalar s =>
    rw [tokens]
    rfl
  | array items =>
    rw [tokens]
    rfl
  | object members =>
    rw [tokens]
    rfl

theorem run_firstItem_itemTokens {items : List Json} (hne : items ≠ []) :
    (State.firstItem stack).run (itemTokens items ++ rest) =
      (State.value (.array [] :: stack)).run (itemTokens items ++ rest) := by
  cases items with
  | nil => exact absurd rfl hne
  | cons v items =>
    cases items with
    | nil =>
      rw [itemTokens]
      exact run_firstItem v stack rest
    | cons w items =>
      rw [itemTokens_cons_cons, List.append_assoc]
      exact run_firstItem v stack _

theorem run_itemTokens {items : List Json} (hne : items ≠ []) (h : ∀ v ∈ items, v.IsRead)
    (read : List Json) :
    (State.value (.array read :: stack)).run (itemTokens items ++ .closeArray :: rest) =
      (State.complete (.array (read.reverse ++ items)) stack).run rest := by
  induction items generalizing read with
  | nil => exact absurd rfl hne
  | cons v items ih =>
    have hv := h v List.mem_cons_self
    cases items with
    | nil =>
      rw [itemTokens, hv, State.complete, run_of_step rfl, List.reverse_cons]
    | cons w items =>
      have hlater := ih (List.cons_ne_nil _ _) (fun x hx => h x (List.mem_cons_of_mem _ hx))
        (v :: read)
      rw [itemTokens_cons_cons, List.append_assoc, hv, State.complete, List.cons_append,
        run_of_step rfl, hlater, List.reverse_cons, List.append_assoc]
      rfl

theorem run_memberTokens {members : List (Text × Json)} (hne : members ≠ [])
    (h : ∀ member ∈ members, member.2.IsRead) (read : List (Text × Json)) :
    (State.nextName read stack).run (memberTokens members ++ .closeObject :: rest) =
      (State.complete (.object (read.reverse ++ members)) stack).run rest := by
  induction members generalizing read with
  | nil => exact absurd rfl hne
  | cons member members ih =>
    obtain ⟨name, v⟩ := member
    have hv : v.IsRead := h _ List.mem_cons_self
    cases members with
    | nil =>
      rw [memberTokens_singleton, List.append_assoc, List.singleton_append, run_of_step rfl,
        List.cons_append, run_of_step rfl, hv, State.complete, run_of_step rfl, List.reverse_cons]
    | cons next members =>
      have hlater := ih (List.cons_ne_nil _ _) (fun x hx => h x (List.mem_cons_of_mem _ hx))
        ((name, v) :: read)
      rw [memberTokens_cons_cons, List.append_assoc, List.append_assoc, List.singleton_append,
        run_of_step rfl, List.cons_append, run_of_step rfl, hv, State.complete, List.cons_append,
        run_of_step rfl, hlater, List.reverse_cons, List.append_assoc]
      rfl

/-- The first name of an object is read like any other. -/
theorem run_firstName {members : List (Text × Json)} (hne : members ≠ []) :
    (State.firstName stack).run (memberTokens members ++ rest) =
      (State.nextName [] stack).run (memberTokens members ++ rest) := by
  cases members with
  | nil => exact absurd rfl hne
  | cons member members =>
    obtain ⟨name, v⟩ := member
    cases members with
    | nil =>
      rw [memberTokens_singleton]
      rfl
    | cons next members =>
      rw [memberTokens_cons_cons]
      rfl

/-- Induction on the value; what is read of an open array or object waits in its frame. -/
theorem run_tokens (h : v.IsSpelled) : v.IsRead := by
  induction h with
  | scalar _ =>
    intro stack rest
    rw [tokens]
    rfl
  | @array items _ ih =>
    intro stack rest
    rw [tokens, List.cons_append, List.cons_append, List.append_assoc, run_of_step rfl]
    cases items with
    | nil => rfl
    | cons v items =>
      have hne := List.cons_ne_nil v items
      exact (run_firstItem_itemTokens hne).trans (run_itemTokens hne ih [])
  | @object members _ _ ih =>
    intro stack rest
    rw [tokens, List.cons_append, List.cons_append, List.append_assoc, run_of_step rfl]
    cases members with
    | nil => rfl
    | cons member members =>
      have hne := List.cons_ne_nil member members
      exact (run_firstName hne).trans (run_memberTokens hne ih [])

end Machine

/-- A value is read back from its text. -/
theorem parse?_render {v : Json} (h : v.IsSpelled) : parse? v.render = some v := by
  have hcut : cut .between (v.tokens.flatMap Token.spelling ++ []) = some v.tokens := by
    rw [h.cutsOff [] nofun]
    simp [cut, Mode.finish]
  have hrun : (State.value []).run (v.tokens ++ []) = some (.done v) := run_tokens h [] []
  rw [List.append_nil] at hcut hrun
  simp [parse?, render, ofTokens?, hcut, hrun]

end TimelockAuction.Json
