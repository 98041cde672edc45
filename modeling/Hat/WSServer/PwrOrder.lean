import Hat.Core.Selection
import Hat.WSServer.PwrManager

/-!
# What the controller makes of an order

A posted list numbers its devices, and the controller keeps the numbers as texts, each in the
control of the name if that has an attribute for it.  After the commands of a list with the
controls of a category, the page shows them with their numbers, in the order of the list.
-/

namespace Hat

open Hat.Hsrv

/-- The message of an order, as the controller reads it. -/
structure SetControl (m : MMessage) (order : DeviceOrder) : Prop where
  name_eq : m.getString "name" = order.name
  priority_eq : m.getString "priority" = order.priority
  status_eq : m.getString "status" = PwrManager.onOff order.status
  no_others : ∀ field ∈ ["controlname", "value", "mode", "nominalload"], m.getString field = ""

theorem PwrManager.onOff_ne_empty (status : String) : onOff status ≠ "" := by
  rw [onOff]
  split <;> decide

namespace Control

/-- What the page of the controller says of a control. -/
def descriptor (control : Control) : DeviceDescriptor :=
  ⟨control.params.get "name", control.params.get "priority", control.params.get "status"⟩

theorem name_descriptor (control : Control) :
    control.descriptor.name = control.params.get "name" := rfl

/-- A control after an order. -/
def ordered (order : DeviceOrder) (control : Control) : Control :=
  (control.setStatus (PwrManager.onOff order.status)).setPriority order.priority

theorem setStatus_onOff (status : String) (control : Control) :
    control.setStatus (PwrManager.onOff status) =
      control.setSaved "status" (PwrManager.onOff status) := by
  refine if_neg fun h => ?_
  rw [PwrManager.onOff] at h
  split at h
  · exact h.1 rfl
  · exact h.2 rfl

theorem descriptor_ordered {order : DeviceOrder} (horder : order.priority ≠ "")
    (control : Control) : (control.ordered order).descriptor =
      ⟨control.params.get "name", if control.params.Has "priority" then order.priority else "",
        if control.params.Has "status" then PwrManager.onOff order.status else ""⟩ := by
  have hordered : control.ordered order =
      (control.setSaved "status" (PwrManager.onOff order.status)).setSaved "priority"
        order.priority := by
    rw [ordered, setStatus_onOff, setPriority, if_neg horder]
  rw [descriptor, hordered, DeviceDescriptor.mk.injEq]
  refine ⟨?_, ?_, ?_⟩
  · rw [get_setSaved_of_ne (by decide), get_setSaved_of_ne (by decide)]
  · rw [setSaved, MParams.get_save, MParams.get_set_eq_ite _ _ horder]
    congr 1
    exact propext (MParams.has_set _ _ _ _)
  · rw [get_setSaved_of_ne (by decide), setSaved, MParams.get_save,
      MParams.get_set_eq_ite _ _ (PwrManager.onOff_ne_empty order.status)]

theorem get_name_ordered (order : DeviceOrder) (control : Control) :
    (control.ordered order).params.get "name" = control.params.get "name" := by
  rw [ordered, setStatus_onOff, setPriority]
  split
  · rw [get_setSaved_of_ne (by decide)]
  · rw [get_setSaved_of_ne (by decide), get_setSaved_of_ne (by decide)]

end Control

namespace ControlSet

theorem named_of_setControl {m : MMessage} {order : DeviceOrder} (h : SetControl m order) :
    named m = order.name := by
  have hnone := h.no_others
  rw [named, hnone "controlname" (by decide), hnone "value" (by decide), h.name_eq,
    if_neg (not_not.mpr rfl)]
  split
  · rfl
  · rename_i hempty
    exact (not_not.mp hempty).symm

theorem change_of_setControl {m : MMessage} {order : DeviceOrder} (h : SetControl m order)
    (horder : order.priority ≠ "") : change m = Control.ordered order := by
  have hnone := h.no_others
  funext control
  simp only [change, hnone "mode" (by decide), hnone "nominalload" (by decide), h.status_eq,
    h.priority_eq]
  rw [if_neg (not_not.mpr rfl), if_neg (not_not.mpr rfl), if_pos horder,
    if_pos (PwrManager.onOff_ne_empty order.status), Control.ordered]

end ControlSet

namespace PwrManager

/-- The text for a place that is counted from zero. -/
def place (i : ℕ) : String := int2a ((i + 1 : ℕ) : ℤ)

theorem place_ne_empty (i : ℕ) : place i ≠ "" := Nat.repr_ne_empty

theorem empty_lt_place : ∀ i < 9, "" < place i := by decide +kernel

theorem place_lt_place : ∀ j < 9, ∀ i < j, place i < place j := by decide +kernel

theorem not_place_lt : ¬ place 8 < place 9 := by decide +kernel

theorem not_lt_empty (p : Prop) [Decidable p] : ¬ (if p then place 0 else "") < "" := by
  split
  · decide +kernel
  · exact lt_irrefl ""

theorem map_mapIdx {α β γ : Type*} {f : ℕ → α → β} {g : β → γ} {h : α → γ}
    (hfg : ∀ i x, g (f i x) = h x) (xs : List α) : (xs.mapIdx f).map g = xs.map h := by
  refine List.ext_getElem? fun i => ?_
  rw [List.getElem?_map, List.getElem?_mapIdx, List.getElem?_map, Option.map_map]
  congr 1
  exact funext (hfg i)

theorem map_name_orders (posted : List (String × String)) :
    (orders posted).map DeviceOrder.name = posted.map Prod.fst := by
  rw [orders]
  refine map_mapIdx (fun i row => ?_) posted
  rfl

theorem priority_ne_empty {posted : List (String × String)} {order : DeviceOrder}
    (horder : order ∈ orders posted) : order.priority ≠ "" := by
  obtain ⟨i, _, rfl⟩ := List.mem_mapIdx.mp horder
  exact place_ne_empty i

/-! ## What happens to a posted list -/

/-- A list that is posted, and what the controller makes of its commands. -/
structure Posting where
  par : MParams
  devCategories : NameList
  readJson : String → Option PTree
  params : List String
  body : String
  posted : List (String × String)
  replies : ℕ → String
  decode : String → Option MMessage
  controls : ControlSet
  member : devCategories.member (categoryOf params) = true
  read : postedOf readJson body = some posted
  distinct : (posted.map Prod.fst).Nodup
  of_category : ∀ row ∈ posted, getCategory row.1 = categoryOf params
  covers : ∀ control ∈ controls, getCategory (control.params.get "name") = categoryOf params →
    control.params.get "name" ∈ posted.map Prod.fst
  /-- Every command names a control, and the controller reads what it says. -/
  controlled : ∀ row ∈ posted, ∃ control ∈ controls, control.params.get "name" = row.1
  decoded : ∀ order ∈ orders posted, ∃ m, decode (setDeviceStatus par order) = some m ∧
    SetControl m order

/-- What the controller does with a text that it receives. -/
def receive (decode : String → Option MMessage) (controls : ControlSet) (command : String) :
    ControlSet :=
  match decode command with
  | some m => (ControlSet.setControl m controls).1
  | none => controls

namespace Posting

variable (p : Posting)

def category : String := categoryOf p.params

/-- The commands that the server sends for the list. -/
def commands : List String :=
  ((execPost p.readJson p.par p.devCategories p.replies p.params p.body).map Prod.fst).getD []

/-- The controls when all commands have been applied. -/
def after : ControlSet := p.commands.foldl (receive p.decode) p.controls

/-- The controls of a name have the attribute. -/
def Keeps (name attr : String) : Prop :=
  ∀ control ∈ p.controls, control.params.get "name" = name → control.params.Has attr

instance (name attr : String) : Decidable (p.Keeps name attr) :=
  inferInstanceAs (Decidable (∀ control ∈ p.controls, _ → _))

/-- The controls of the category. -/
def owned : ControlSet :=
  p.controls.filter fun control => getCategory (control.params.get "name") = p.category

/-- What the page shows of the category after the post. -/
def listed : List DeviceDescriptor :=
  (p.after.map Control.descriptor).filter fun device => getCategory device.name = p.category

theorem commands_eq : p.commands = (orders p.posted).map (setDeviceStatus p.par) := by
  rw [commands, execPost, p.member, p.read]
  rfl

theorem after_eq : p.after = Selection.changeEach (fun control => control.params.get "name")
    DeviceOrder.name Control.ordered (orders p.posted) p.controls := by
  rw [after, commands_eq, List.foldl_map]
  refine List.foldl_ext _ _ _ fun controls order horder => ?_
  obtain ⟨m, hm, hset⟩ := p.decoded order horder
  simp only [receive, hm, ControlSet.setControl, ControlSet.named_of_setControl hset,
    ControlSet.change_of_setControl hset (priority_ne_empty horder)]

/-- What the page should show of the posted devices, in their order. -/
def shown : List DeviceDescriptor :=
  p.posted.mapIdx fun i row => ⟨row.1, if p.Keeps row.1 "priority" then place i else "",
    if p.Keeps row.1 "status" then onOff row.2 else ""⟩

theorem map_name_shown : p.shown.map DeviceDescriptor.name = p.posted.map Prod.fst := by
  rw [shown]
  refine map_mapIdx (fun i row => ?_) p.posted
  rfl

theorem listed_eq_map : p.listed = (p.after.filter fun control =>
    getCategory (control.params.get "name") = p.category).map Control.descriptor := by
  have hcategory : (fun device : DeviceDescriptor =>
      decide (getCategory device.name = p.category)) ∘ Control.descriptor =
        fun control => decide (getCategory (control.params.get "name") = p.category) := by
    funext control
    rw [Function.comp_apply, decide_eq_decide, Control.name_descriptor]
  rw [listed, List.filter_map, hcategory]

/-- The orders reach the controls of the category alone. -/
theorem listed_eq : p.listed = (Selection.changeEach (fun control => control.params.get "name")
    DeviceOrder.name Control.ordered (orders p.posted) p.owned).map Control.descriptor := by
  have hkept : ∀ order ∈ orders p.posted, ∀ control : Control,
      order.name = control.params.get "name" →
        decide (getCategory (control.params.get "name") = p.category) = true ∧
          decide (getCategory ((control.ordered order).params.get "name") = p.category) = true := by
    intro order horder control hname
    have hmem : order.name ∈ p.posted.map Prod.fst :=
      map_name_orders p.posted ▸ List.mem_map_of_mem horder
    obtain ⟨row, hrow, hfst⟩ := List.mem_map.mp hmem
    rw [Control.get_name_ordered, ← hname, ← hfst, p.of_category row hrow]
    exact ⟨decide_eq_true rfl, decide_eq_true rfl⟩
  rw [listed_eq_map, after_eq, Selection.filter_changeEach hkept, owned]

theorem mem_map_name_owned (name : String) :
    name ∈ p.owned.map (fun control => control.params.get "name") ↔
      name ∈ p.posted.map Prod.fst := by
  constructor
  · intro hname
    obtain ⟨control, hcontrol, rfl⟩ := List.mem_map.mp hname
    obtain ⟨hmem, hcategory⟩ := List.mem_filter.mp hcontrol
    exact p.covers control hmem (of_decide_eq_true hcategory)
  · intro hname
    obtain ⟨row, hrow, rfl⟩ := List.mem_map.mp hname
    obtain ⟨control, hcontrol, hfst⟩ := p.controlled row hrow
    refine List.mem_map.mpr ⟨control, List.mem_filter.mpr ⟨hcontrol, ?_⟩, hfst⟩
    rw [hfst]
    exact decide_eq_true (p.of_category row hrow)

/-- No two controls of the category have one name. -/
def Named : Prop := (p.owned.map fun control => control.params.get "name").Nodup

variable {p}

theorem keeps_iff (hnamed : p.Named) {control : Control} (hcontrol : control ∈ p.owned)
    (attr : String) :
    p.Keeps (control.params.get "name") attr ↔ control.params.Has attr := by
  obtain ⟨hmem, hcategory⟩ := List.mem_filter.mp hcontrol
  constructor
  · intro hkeeps
    exact hkeeps control hmem rfl
  · intro hhas other hother hname
    have howned : other ∈ p.owned := by
      refine List.mem_filter.mpr ⟨hother, ?_⟩
      rw [hname]
      exact hcategory
    rwa [List.inj_on_of_nodup_map hnamed howned hcontrol hname]

theorem perm_shown (hnamed : p.Named) : p.listed.Perm p.shown := by
  have hnames : (p.owned.map fun control => control.params.get "name").Perm
      ((orders p.posted).map DeviceOrder.name) := by
    rw [map_name_orders]
    exact (List.perm_ext_iff_of_nodup hnamed p.distinct).mpr p.mem_map_name_owned
  have hdistinct : ((orders p.posted).map DeviceOrder.name).Nodup := by
    rw [map_name_orders]
    exact p.distinct
  obtain ⟨controls, hperm, hcontrols, hchanged⟩ :=
    Selection.exists_perm_zipWith Control.get_name_ordered hnames hdistinct
  have hshown : (List.zipWith Control.ordered (orders p.posted) controls).map Control.descriptor =
      p.shown := by
    refine List.ext_getElem? fun i => ?_
    have hname : (controls[i]?).map (fun control => control.params.get "name") =
        (p.posted[i]?).map Prod.fst := by
      rw [← List.getElem?_map, ← List.getElem?_map, hcontrols, map_name_orders]
    rw [List.getElem?_map, List.getElem?_zipWith, shown, orders, List.getElem?_mapIdx,
      List.getElem?_mapIdx]
    cases hrow : p.posted[i]? with
    | none => rfl
    | some row =>
        rw [hrow, Option.map_some] at hname
        obtain ⟨control, hcontrol, hfst⟩ := Option.map_eq_some_iff.mp hname
        have howned : control ∈ p.owned :=
          hperm.mem_iff.mp (List.mem_of_getElem? hcontrol)
        have horder : place i ≠ "" := place_ne_empty i
        rw [hcontrol, Option.map_some, Option.map_some, Option.map_some, Option.some.injEq,
          Control.descriptor_ordered horder, DeviceDescriptor.mk.injEq]
        rw [← hfst]
        exact ⟨rfl, if_congr (keeps_iff hnamed howned "priority").symm rfl rfl,
          if_congr (keeps_iff hnamed howned "status").symm rfl rfl⟩
  rw [listed_eq, ← hshown]
  exact hchanged.map Control.descriptor

end Posting

end PwrManager

end Hat
