import Mathlib
import Apportion.Proofs.Tensor.RowMajor

/-!
Arrays handed out as views into memory. A view finds its elements by strides, so that its axes can
be reversed and inverted without any element being moved. Read in logical order, a view gives the
array with the same axes reversed and inverted, whatever has been done to the view before.
-/

namespace Apportion.Proofs.Tensor.StridedViews

open Apportion.Tensor.Elements
open Apportion.Tensor.Buffers
open Apportion.Tensor.Shapes
open Apportion.Tensor.Arrays
open Apportion.Tensor.Axes
open Apportion.Proofs.Tensor.RowMajor

/-- How many elements lie along an axis and how many cells each is behind the one before it. -/
structure Axis where
  extent : Nat
  stride : Int

def Axis.inverted (axis : Axis) : Axis :=
  { axis with stride := -axis.stride }

def Axis.reach (axis : Axis) : Int :=
  axis.stride * (axis.extent - 1 : Nat)

/-- How many cells the element with the given indices is behind the one whose indices are zero. -/
def displacement : List Axis → List Nat → Int
  | axis :: axes, index :: indices => axis.stride * index + displacement axes indices
  | _, _ => 0

/-- Elements that are found in memory by their indices along some axes. -/
structure View (α : Type) where
  cells : List α
  origin : Int
  axes : List Axis

namespace View

variable {α : Type}

def shape (view : View α) : Shape :=
  view.axes.map Axis.extent

def cell (view : View α) (indices : List Nat) : Int :=
  view.origin + displacement view.axes indices

def element? (view : View α) (indices : List Nat) : Option α :=
  if 0 ≤ view.cell indices then view.cells[(view.cell indices).toNat]? else none

/-- The elements in the logical order, if none of them is looked for outside of the memory. -/
def elements? (view : View α) : Option (List α) :=
  (multiIndices view.shape).mapM view.element?

def rearrange (layout : Layout) (view : View α) : View α :=
  match layout with
  | .same => view
  | .reversed => { view with axes := view.axes.reverse }
  | .inverted axis =>
      { view with
        origin := view.origin + (view.axes[axis]?.map Axis.reach).getD 0
        axes := view.axes.modify axis Axis.inverted }

end View

def rowMajorAxes : Shape → List Axis
  | [] => []
  | extent :: inner => ⟨extent, Shape.count inner⟩ :: rowMajorAxes inner

def collect {type : ElementType} (view : View type.Element) : Option TypedArray :=
  view.elements?.map fun shown => ⟨view.shape, ⟨type, shown⟩⟩

/-- Hand the elements out as a view, rearrange its axes one time after another, and collect what it
shows. -/
def throughView (type : ElementType) (layouts : List Layout) (array : TypedArray) :
    Option TypedArray :=
  (array.elements? type).bind fun elements =>
    collect (layouts.foldl (fun view layout => view.rearrange layout)
      (⟨elements, 0, rowMajorAxes array.shape⟩ : View type.Element))

def rearrangeAll (layouts : List Layout) (array : TypedArray) : TypedArray :=
  layouts.foldl (fun array layout => rearrange layout array) array

def elementAt (array : TypedArray) (indices : List Nat) : Option array.buffer.type.Element :=
  array.buffer.elements[array.shape.offset indices]?

theorem displacement_append {axes inner : List Axis} {indices others : List Nat}
    (hlength : axes.length = indices.length) :
    displacement (axes ++ inner) (indices ++ others) =
      displacement axes indices + displacement inner others := by
  induction axes generalizing indices with
  | nil =>
      obtain rfl := List.length_eq_zero_iff.mp hlength.symm
      exact (Int.zero_add _).symm
  | cons axis axes ih =>
      obtain ⟨index, indices, rfl⟩ := List.exists_cons_of_length_eq_add_one hlength.symm
      rw [List.cons_append, List.cons_append, displacement, displacement,
        ih (Nat.succ_injective hlength), Int.add_assoc]

theorem displacement_reverse {axes : List Axis} {indices : List Nat}
    (hlength : axes.length = indices.length) :
    displacement axes.reverse indices.reverse = displacement axes indices := by
  induction axes generalizing indices with
  | nil =>
      obtain rfl := List.length_eq_zero_iff.mp hlength.symm
      rfl
  | cons axis axes ih =>
      obtain ⟨index, indices, rfl⟩ := List.exists_cons_of_length_eq_add_one hlength.symm
      have hothers := Nat.succ_injective hlength
      have hlengths : axes.reverse.length = indices.reverse.length := by simpa using hothers
      rw [List.reverse_cons, List.reverse_cons, displacement_append hlengths, ih hothers]
      simp only [displacement]
      ring

theorem displacement_inverted {axes : List Axis} {indices : List Nat}
    (hinside : Inside (axes.map Axis.extent) indices) (axis : Nat) :
    (axes[axis]?.map Axis.reach).getD 0 + displacement (axes.modify axis Axis.inverted) indices =
      displacement axes
        (indices.modify axis fun index => (axes.map Axis.extent).getD axis 0 - 1 - index) := by
  induction axes generalizing indices axis with
  | nil => simp [displacement]
  | cons first axes ih =>
      obtain _ | ⟨hlt, hothers⟩ := hinside
      rename_i index indices
      cases axis with
      | zero =>
          obtain ⟨rest, hrest⟩ := Nat.exists_eq_add_of_lt hlt
          have hlast : first.extent - 1 = index + rest := by omega
          simp only [List.modify_zero_cons, List.getElem?_cons_zero, Option.map_some,
            Option.getD_some, List.map_cons, List.getD_cons_zero, displacement, Axis.inverted,
            Axis.reach, hlast, Nat.add_sub_cancel_left]
          push_cast
          ring
      | succ axis =>
          have hinner := ih hothers axis
          simp only [List.modify_succ_cons, List.getElem?_cons_succ, List.map_cons,
            List.getD_cons_succ, displacement]
          rw [← hinner]
          ring

theorem displacement_rowMajorAxes {shape : Shape} {indices : List Nat}
    (hinside : Inside shape indices) :
    displacement (rowMajorAxes shape) indices = shape.offset indices := by
  induction hinside with
  | nil => rfl
  | @cons index extent indices shape _ _ ih =>
      rw [rowMajorAxes, displacement, ih, Shape.offset]
      push_cast
      ring

theorem map_extent_rowMajorAxes (shape : Shape) :
    (rowMajorAxes shape).map Axis.extent = shape := by
  induction shape with
  | nil => rfl
  | cons extent shape ih => rw [rowMajorAxes, List.map_cons, ih]

section

variable {α : Type} {view : View α} {indices : List Nat}

theorem shape_rearrange (layout : Layout) (view : View α) :
    (view.rearrange layout).shape = layout.shape view.shape := by
  cases layout with
  | same => rfl
  | reversed => exact List.map_reverse
  | inverted axis =>
      have hextent : ∀ axes : List Axis,
          (axes.modify axis Axis.inverted).map Axis.extent = axes.map Axis.extent := by
        intro axes
        induction axes generalizing axis with
        | nil => simp
        | cons first axes ih => cases axis <;> simp_all [Axis.inverted]
      exact hextent view.axes

theorem element?_rearrange (layout : Layout) (hinside : Inside (layout.shape view.shape) indices) :
    (view.rearrange layout).element? indices =
      view.element? (layout.source view.shape indices) := by
  have hcell : (view.rearrange layout).cell indices =
      view.cell (layout.source view.shape indices) := by
    cases layout with
    | same => rfl
    | reversed =>
        have hlength : view.axes.reverse.length = indices.length := by
          have := hinside.length_eq
          simpa [Layout.shape, View.shape] using this.symm
        have hreverse := displacement_reverse hlength
        rw [List.reverse_reverse] at hreverse
        exact congrArg (view.origin + ·) hreverse.symm
    | inverted axis =>
        have hinverted := displacement_inverted hinside axis
        rw [View.cell, View.cell, View.rearrange]
        simp only [Int.add_assoc]
        exact congrArg (view.origin + ·) hinverted
  have hcells : (view.rearrange layout).cells = view.cells := by
    cases layout <;> rfl
  rw [View.element?, View.element?, hcell, hcells]

end

section

variable {array : TypedArray} {indices : List Nat}

theorem exists_elementAt (hformed : array.WellFormed) (hinside : Inside array.shape indices) :
    ∃ element, elementAt array indices = some element := by
  have hlt : array.shape.offset indices < array.buffer.elements.length :=
    (offset_lt hinside).trans_eq hformed.symm
  exact ⟨_, List.getElem?_eq_getElem hlt⟩

theorem elementAt_rearrange (hformed : array.WellFormed) (layout : Layout)
    (hinside : Inside (layout.shape array.shape) indices) :
    elementAt (rearrange layout array) indices =
      elementAt array (layout.source array.shape indices) := by
  obtain ⟨element, helement⟩ := exists_elementAt hformed (inside_source layout hinside)
  have hlt : (layout.shape array.shape).offset indices < array.length := by
    have hcount := offset_lt hinside
    rwa [layout.count_shape, ← hformed] at hcount
  have hgathered : ((List.range array.length).map fun position =>
      array.buffer.elements.getD
        (array.shape.offset
          (layout.source array.shape ((layout.shape array.shape).indices position)))
        array.buffer.type.zero)[(layout.shape array.shape).offset indices]? = some element := by
    rw [elementAt] at helement
    rw [List.getElem?_map, List.getElem?_range hlt, Option.map_some, indices_offset hinside,
      List.getD_eq_getElem?_getD, helement, Option.getD_some]
  exact hgathered.trans helement.symm

theorem elements_ext {α : Type} {shape : Shape} {left right : List α}
    (hleft : left.length = shape.count) (hright : right.length = shape.count)
    (hsame : ∀ indices, Inside shape indices →
      left[shape.offset indices]? = right[shape.offset indices]?) : left = right := by
  refine List.ext_getElem? fun position => ?_
  rcases Nat.lt_or_ge position shape.count with hlt | hge
  · have helement := hsame _ (inside_indices hlt)
    rwa [offset_indices hlt] at helement
  · rw [List.getElem?_eq_none (hleft.trans_le hge), List.getElem?_eq_none (hright.trans_le hge)]

theorem rearrange_same (hformed : array.WellFormed) : rearrange .same array = array := by
  have hmoved : (rearrange .same array).WellFormed := wellFormed_rearrange .same hformed
  have helements : (rearrange .same array).buffer.elements = array.buffer.elements :=
    elements_ext hmoved hformed fun _ hinside => elementAt_rearrange hformed .same hinside
  exact congrArg (fun elements => TypedArray.mk array.shape ⟨array.buffer.type, elements⟩) helements

theorem rearrange_rearrange (hformed : array.WellFormed) (layout : Layout) :
    rearrange layout (rearrange layout array) = array := by
  have hmoved := wellFormed_rearrange layout hformed
  have hshape : (rearrange layout (rearrange layout array)).shape = array.shape :=
    shape_shape layout array.shape
  have hback := wellFormed_rearrange layout hmoved
  have helements : (rearrange layout (rearrange layout array)).buffer.elements =
      array.buffer.elements := by
    refine elements_ext (hback.trans (congrArg Shape.count hshape)) hformed ?_
    intro indices hinside
    have hinside' : Inside (layout.shape (layout.shape array.shape)) indices := by
      rwa [shape_shape]
    have hsource := elementAt_rearrange hformed layout (inside_source layout hinside')
    rw [source_source layout hinside] at hsource
    have helement := (elementAt_rearrange hmoved layout hinside').trans hsource
    rw [elementAt, hshape] at helement
    exact helement
  exact congr (congrArg TypedArray.mk hshape) (congrArg (Buffer.mk array.buffer.type) helements)

/-- The view shows the elements of the array, each where the array has it. -/
structure Presents (array : TypedArray) (view : View array.buffer.type.Element) : Prop where
  shape_eq : view.shape = array.shape
  element : ∀ indices, Inside array.shape indices →
    view.element? indices = elementAt array indices

theorem presents_rowMajor (array : TypedArray) :
    Presents array ⟨array.buffer.elements, 0, rowMajorAxes array.shape⟩ where
  shape_eq := map_extent_rowMajorAxes array.shape
  element indices hinside := by
    have hcell : 0 + displacement (rowMajorAxes array.shape) indices =
        (array.shape.offset indices : Int) := by
      rw [displacement_rowMajorAxes hinside, Int.zero_add]
    rw [View.element?, View.cell, hcell, if_pos (Int.natCast_nonneg _), Int.toNat_natCast]
    rfl

theorem presents_rearrange (hformed : array.WellFormed) {view : View array.buffer.type.Element}
    (hpresents : Presents array view) (layout : Layout) :
    Presents (rearrange layout array) (view.rearrange layout) where
  shape_eq := (shape_rearrange layout view).trans (congrArg layout.shape hpresents.shape_eq)
  element indices hinside := by
    have hview : Inside (layout.shape view.shape) indices := by
      rw [hpresents.shape_eq]
      exact hinside
    have helement := element?_rearrange layout hview
    rw [hpresents.shape_eq, hpresents.element _ (inside_source layout hinside)] at helement
    exact helement.trans (elementAt_rearrange hformed layout hinside).symm

theorem mapM_eq_some {β γ : Type} {f : β → Option γ} {inputs : List β} {outputs : List γ}
    (hall : List.Forall₂ (fun input output => f input = some output) inputs outputs) :
    inputs.mapM f = some outputs := by
  induction hall with
  | nil => rfl
  | cons hfirst _ ih =>
      rw [List.mapM_cons, hfirst, ih]
      rfl

/-- Read in logical order, a view gives the elements in row-major order. -/
theorem elements?_of_presents (hformed : array.WellFormed)
    {view : View array.buffer.type.Element} (hpresents : Presents array view) :
    view.elements? = some array.buffer.elements := by
  rw [View.elements?, hpresents.shape_eq, multiIndices_eq]
  apply mapM_eq_some
  rw [List.forall₂_map_left_iff, List.forall₂_iff_get]
  have hlength : (List.range array.shape.count).length = array.buffer.elements.length :=
    List.length_range.trans hformed.symm
  refine ⟨hlength, fun position hrange helements => ?_⟩
  have hlt : position < array.shape.count := by simpa using hrange
  rw [List.get_eq_getElem, List.getElem_range, hpresents.element _ (inside_indices hlt), elementAt,
    offset_indices hlt, List.get_eq_getElem]
  exact List.getElem?_eq_getElem helements

theorem collect_rearranged (hformed : array.WellFormed) {view : View array.buffer.type.Element}
    (hpresents : Presents array view) (layouts : List Layout) :
    collect (layouts.foldl (fun view layout => view.rearrange layout) view) =
      some (rearrangeAll layouts array) := by
  induction layouts generalizing array with
  | nil =>
      rw [List.foldl_nil, collect, elements?_of_presents hformed hpresents, hpresents.shape_eq]
      rfl
  | cons layout layouts ih =>
      exact ih (wellFormed_rearrange layout hformed) (presents_rearrange hformed hpresents layout)

theorem throughView_eq (hformed : array.WellFormed) (layouts : List Layout) :
    throughView array.type layouts array = some (rearrangeAll layouts array) := by
  have helements : array.elements? array.type = some array.buffer.elements := dif_pos rfl
  rw [throughView, helements]
  exact collect_rearranged hformed (presents_rowMajor array) layouts

/-- Arrays that are handed out keep their elements at their logical positions. -/
structure KeepsPositions (type : ElementType) (array : TypedArray) : Prop where
  type_eq : array.type = type
  present : ∀ indices, Inside array.shape indices →
    ∃ element, elementAt array indices = some element
  same : exchange type .same array = .ok array
  rearranged : ∀ layout, exchange type layout array = .ok (rearrange layout array)
  reversed : (rearrange .reversed array).shape = array.shape.reverse ∧
    ∀ indices, Inside array.shape indices →
      elementAt (rearrange .reversed array) indices.reverse = elementAt array indices
  inverted : ∀ axis, (rearrange (.inverted axis) array).shape = array.shape ∧
    ∀ indices, Inside array.shape indices →
      elementAt (rearrange (.inverted axis) array) indices =
        elementAt array (indices.modify axis fun index => array.shape.getD axis 0 - 1 - index)
  twice : ∀ layout, exchange type layout (rearrange layout array) = .ok array ∧
    throughView type [layout, layout] array = some array
  /-- The same comes of any number of changes to the axes of one view. -/
  views : ∀ layouts, throughView type layouts array = some (rearrangeAll layouts array)

theorem exchange_eq_ok_iff {type : ElementType} {layout : Layout} {taken : TypedArray} :
    exchange type layout array = .ok taken ↔
      array.type = type ∧ isAddressable array.shape = true ∧ taken = rearrange layout array := by
  unfold exchange
  split
  · rename_i hother
    simp [hother]
  · rename_i hsame
    rw [ne_eq, not_not] at hsame
    split
    · rename_i haddressable
      simp [hsame, haddressable, eq_comm]
    · rename_i hlarge
      simp [hlarge]

theorem isAddressable_shape (layout : Layout) (shape : Shape) :
    isAddressable (layout.shape shape) = isAddressable shape := by
  cases layout with
  | same => rfl
  | inverted axis => rfl
  | reversed =>
      rw [isAddressable, isAddressable, Layout.shape, List.filter_reverse, Shape.count_reverse]

/-- An array that can be handed out keeps its elements at their logical positions, whatever is done
to the axes in between. -/
theorem exchange_keepsPositions {type : ElementType} {taken : TypedArray}
    (hformed : array.WellFormed) (htaken : exchange type .same array = .ok taken) :
    KeepsPositions type array := by
  obtain ⟨rfl, haddressable, -⟩ := exchange_eq_ok_iff.mp htaken
  constructor
  case type_eq => rfl
  case present => exact fun _ hinside => exists_elementAt hformed hinside
  case same => exact exchange_eq_ok_iff.mpr ⟨rfl, haddressable, (rearrange_same hformed).symm⟩
  case rearranged => exact fun layout => exchange_eq_ok_iff.mpr ⟨rfl, haddressable, rfl⟩
  case reversed =>
    refine ⟨rfl, fun indices hinside => ?_⟩
    have helement := elementAt_rearrange hformed .reversed (inside_reverse hinside)
    rwa [Layout.source, List.reverse_reverse] at helement
  case inverted =>
    exact fun axis => ⟨rfl, fun _ hinside => elementAt_rearrange hformed (.inverted axis) hinside⟩
  case twice =>
    intro layout
    have hback := rearrange_rearrange hformed layout
    have hmoved := (isAddressable_shape layout array.shape).trans haddressable
    refine ⟨exchange_eq_ok_iff.mpr ⟨rfl, hmoved, hback.symm⟩, ?_⟩
    rw [throughView_eq hformed]
    exact congrArg some hback
  case views => exact throughView_eq hformed

def rows : TypedArray :=
  ⟨[2, 1, 3], ⟨.int32, [1, 2, 3, 4, 5, 6]⟩⟩

theorem exchange_keepsPositions_rows :
    rows.WellFormed ∧ exchange .int32 .same rows = .ok rows ∧ KeepsPositions .int32 rows ∧
      throughView .int32 [.reversed, .inverted 2] rows =
        some ⟨[3, 1, 2], ⟨.int32, [4, 1, 5, 2, 6, 3]⟩⟩ := by
  have hformed : rows.WellFormed := rfl
  have htaken : exchange .int32 .same rows = .ok rows := rfl
  have hkeeps := exchange_keepsPositions hformed htaken
  exact ⟨hformed, htaken, hkeeps, (hkeeps.views _).trans rfl⟩

end

end Apportion.Proofs.Tensor.StridedViews
