import GameHost.Proofs.Module.Lives
import Mathlib.Data.List.Nodup

namespace GameHost

def nameOf (modules : List Module) (id : Nat) : String := (modules[id]?.map (·.name)).getD ""

structure Registry.Sound (modules : List Module) (reg : Registry) : Prop where
  there : ∀ id ∈ reg.modules, id < modules.length
  places : reg.places = (reg.modules.map (nameOf modules)).zipIdx
  distinct : (reg.modules.map (nameOf modules)).Nodup

namespace Registry.Sound

variable {modules after : List Module} {reg : Registry}

theorem empty (modules : List Module) : Registry.empty.Sound modules :=
  ⟨by simp [Registry.empty], rfl, List.nodup_nil⟩

theorem nodup (h : reg.Sound modules) : reg.modules.Nodup := h.distinct.of_map

theorem mono (h : reg.Sound modules)
    (hkept : ∀ (id : Nat) (m : Module), modules[id]? = some m → ∃ m', after[id]? = some m' ∧ m'.name = m.name) :
    reg.Sound after := by
  have hthere (id : Nat) (hid : id ∈ reg.modules) : id < after.length ∧ nameOf after id = nameOf modules id := by
    have hat := List.getElem?_eq_getElem (h.there id hid)
    obtain ⟨m, hm, hname⟩ := hkept id _ hat
    refine ⟨(List.getElem?_eq_some_iff.1 hm).1, ?_⟩
    rw [nameOf, nameOf, hm, hat, Option.map_some, Option.map_some, hname]
  have hnames : reg.modules.map (nameOf after) = reg.modules.map (nameOf modules) :=
    List.map_congr_left fun id hid ↦ (hthere id hid).2
  exact ⟨fun id hid ↦ (hthere id hid).1, hnames ▸ h.places, hnames ▸ h.distinct⟩

theorem has_iff (h : reg.Sound modules) (name : String) :
    reg.has name ↔ name ∈ reg.modules.map (nameOf modules) := by
  have hfst := List.zipIdx_map_fst 0 (reg.modules.map (nameOf modules))
  rw [has, List.lookup_isSome_iff, h.places]
  constructor
  · rintro ⟨p, hp, hname⟩
    rw [eq_of_beq hname, ← hfst]
    exact List.mem_map_of_mem hp
  · intro hname
    rw [← hfst] at hname
    obtain ⟨p, hp, rfl⟩ := List.mem_map.1 hname
    exact ⟨p, hp, BEq.rfl⟩

theorem push (h : reg.Sound modules) {id : Nat} {m : Module} (hat : modules[id]? = some m)
    (hnew : reg.has m.name = false) : (reg.push m.name id).Sound modules := by
  have hname : nameOf modules id = m.name := by rw [nameOf, hat, Option.map_some, Option.getD_some]
  constructor
  · intro i hi
    rcases List.mem_append.1 hi with hi | hi
    · exact h.there i hi
    · rw [List.mem_singleton.1 hi]
      exact (List.getElem?_eq_some_iff.1 hat).1
  · rw [Registry.push, List.map_append, List.zipIdx_append, h.places]
    simp [hname]
  · rw [Registry.push, List.map_append, List.nodup_append]
    refine ⟨h.distinct, by simp, ?_⟩
    intro name hmem name' hmem' heq
    have hsame : name = m.name := by
      rw [heq]
      simpa [hname] using hmem'
    rw [← h.has_iff, hsame, hnew] at hmem
    cases hmem

end Registry.Sound

namespace World

variable {w v : World}

def Sound (w : World) : Prop := ∀ reg ∈ w.registries, reg.Sound w.modules

theorem sound_fresh : Sound fresh := by
  intro reg hreg
  rw [List.mem_singleton.1 hreg]
  exact .empty _

theorem Sound.registry (h : w.Sound) (r : Nat) : (w.registry r).Sound w.modules := by
  rw [World.registry, List.getD_eq_getElem?_getD]
  cases hat : w.registries[r]? with
  | none => exact .empty _
  | some reg => exact h reg (List.mem_of_getElem? hat)

theorem Grows.name_kept (h : w.Grows v) (id : Nat) (m : Module) (hat : w.modules[id]? = some m) :
    ∃ m', v.modules[id]? = some m' ∧ m'.name = m.name := by
  obtain ⟨_, -, hgrown⟩ := h
  have hid := hgrown id
  rw [hat] at hid
  generalize v.modules[id]? = after at hid
  cases hid with
  | kept hname _ _ => exact ⟨_, rfl, hname⟩

theorem Sound.setRegistry (h : w.Sound) {r : Nat} {reg : Registry} (hreg : reg.Sound w.modules) :
    (w.setRegistry r reg).Sound := by
  intro reg' hmem
  rcases List.mem_or_eq_of_mem_set hmem with hold | rfl
  · exact h reg' hold
  · exact hreg

theorem Sound.change (h : w.Sound) (hchange : Change w v) : v.Sound := by
  have hkept := (grows_change hchange).name_kept
  cases hchange with
  | aside _ hregistries _ =>
    intro reg hreg
    exact (h reg (hregistries ▸ hreg)).mono hkept
  | opened =>
    intro reg hreg
    rcases List.mem_append.1 hreg with hold | hnew
    · exact h reg hold
    · rw [List.mem_singleton.1 hnew]
      exact .empty _
  | @enlisted r id m hat hnew => exact h.setRegistry ((h.registry r).push hat hnew)
  | emptied r => exact h.setRegistry (.empty _)
  | made | tended | entered =>
    intro reg hreg
    exact (h reg hreg).mono hkept

theorem Sound.changes (h : w.Sound) (hchanges : Changes w v) : v.Sound := by
  induction hchanges with
  | refl => exact h
  | tail _ hlast ih => exact ih.change hlast

theorem Sound.story (h : w.Sound) (ops : List Operation) : (story ops w).2.Sound := by
  induction ops generalizing w with
  | nil => exact h
  | cons op ops ih =>
    have hcleared : Sound { w with notes := [] } := h
    exact ih (hcleared.changes (changes_step op w))

end World
end GameHost
