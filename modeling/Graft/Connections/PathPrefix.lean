import Graft.Library.Location
import Graft.Connections.Roots

/-!
# Directories within directories (`hasPathPrefix` in `pkg/utils.go`)

The overlap checks, the selection by working directory and its mapping all ask whether one cleaned
absolute path is below another, by a comparison of texts.  It is compared here with the lists of
the components of the two paths.
-/

namespace Graft.Placement

open Graft.Connections (hasPathPrefix)
open Graft.Path (Name below)
open Graft.Roots (hasPathPrefix_eq_some)

/-- A directory, as `os.Getwd` and `filepath.Abs` give it. -/
structure Directory where
  path : String
  abs : Path.isAbs path.toList = true
  clean : Path.clean path.toList = path.toList

theorem ne_empty_of_isAbs {path : String} (habs : Path.isAbs path.toList = true) : path ≠ "" := by
  intro hx
  rw [hx] at habs
  cases habs

theorem hasPathPrefix_below {path start : String} {es ps : List (List Char)} {after : List Char}
    (hes : ∀ e ∈ es, Name e) (hps : ∀ e ∈ ps, Name e)
    (hpath : path.toList = below es) (hstart : start.toList = below ps) :
    hasPathPrefix path start = some after ↔ ∃ qs, es = ps ++ qs ∧ after = below qs := by
  rw [hasPathPrefix_eq_some, hpath, hstart]
  constructor
  · grind [Path.exists_below, Name]
  · grind [Path.below_append, Path.head_below]

theorem Directory.exists_names (d : Directory) (hroot : d.path ≠ "/") :
    ∃ es, es ≠ [] ∧ (∀ e ∈ es, Name e) ∧ d.path.toList = below es :=
  Path.exists_names d.abs d.clean fun hx => hroot (String.toList_inj.1 hx)

/-- The names that lead from the root to the directory. -/
def Directory.components (d : Directory) : List (List Char) := (Path.stack d.path.toList).reverse

/-- `hasPathPrefix` succeeds exactly if the components of `q` begin those of `p`, and what it gives
leads from `q` to `p`. -/
def DecidesBelow (p q : Directory) : Prop :=
  ((hasPathPrefix p.path q.path).isSome ↔ q.components <+: p.components) ∧
    ∀ after ∈ hasPathPrefix p.path q.path, Path.join q.path.toList after = p.path.toList

variable {p q : Directory}

theorem Directory.components_eq {es : List (List Char)} (hes : ∀ e ∈ es, Name e)
    (hpath : p.path.toList = below es) (hne : es ≠ []) : p.components = es := by
  obtain ⟨e, es, rfl⟩ := List.exists_cons_of_ne_nil hne
  have hnot : '/' ∉ e := (hes e List.mem_cons_self).2.2.2
  have hnots : ∀ x ∈ es, '/' ∉ x := fun x hx => (hes x (List.mem_cons_of_mem e hx)).2.2.2
  have helements : Path.elements p.path.toList = [] :: e :: es := by
    rw [hpath, Path.elements_below]
    exact List.forall_mem_cons.2 ⟨hnot, hnots⟩
  -- the empty element before the first separator is not kept
  have hstack : Path.stack p.path.toList = (e :: es).reverse := by
    rw [Path.stack, helements, List.foldl_cons]
    exact (Path.foldl_push_names hes).trans (List.append_nil _)
  rw [Directory.components, hstack, List.reverse_reverse]

theorem Directory.components_root (h : p.path = "/") : p.components = [] := by
  rw [Directory.components, h]
  rfl

theorem decidesBelow_of_ne_root (hq : q.path ≠ "/") : DecidesBelow p q := by
  obtain ⟨ps, hps, hpsNames, hqPath⟩ := q.exists_names hq
  have hqComponents := Directory.components_eq hpsNames hqPath hps
  by_cases hp : p.path = "/"
  · -- the root is below no other directory
    have hnone : hasPathPrefix p.path q.path = none := by
      refine Option.eq_none_iff_forall_not_mem.2 fun after hafter => ?_
      obtain ⟨happend, -⟩ := hasPathPrefix_eq_some.1 hafter
      obtain ⟨e, ps, rfl⟩ := List.exists_cons_of_ne_nil hps
      obtain ⟨c, cs, rfl⟩ := List.exists_cons_of_ne_nil (hpsNames e List.mem_cons_self).1
      rw [hp, hqPath] at happend
      have hlength := congrArg List.length happend
      simp at hlength
    rw [DecidesBelow, hnone, hqComponents, Directory.components_root hp]
    simp [hps]
  · obtain ⟨es, hes, hesNames, hpPath⟩ := p.exists_names hp
    have hbelow : ∀ after, hasPathPrefix p.path q.path = some after ↔
        ∃ qs, es = ps ++ qs ∧ after = below qs :=
      fun _ => hasPathPrefix_below hesNames hpsNames hpPath hqPath
    rw [DecidesBelow, hqComponents, Directory.components_eq hesNames hpPath hes]
    refine ⟨⟨fun h => ?_, ?_⟩, fun after hafter => ?_⟩
    · obtain ⟨after, hafter⟩ := Option.isSome_iff_exists.1 h
      obtain ⟨qs, rfl, -⟩ := (hbelow after).1 hafter
      exact List.prefix_append ps qs
    · rintro ⟨qs, rfl⟩
      rw [(hbelow (below qs)).2 ⟨qs, rfl, rfl⟩]
      rfl
    · obtain ⟨qs, rfl, rfl⟩ := (hbelow after).1 hafter
      have hqs : ∀ e ∈ qs, Name e := fun e he => hesNames e (List.mem_append_right ps he)
      have hne : q.path.toList ≠ [] := by simpa using ne_empty_of_isAbs q.abs
      rw [Path.join_below hne hqs, ← Path.stack_below hne hqs, hqPath, ← Path.below_append, ← hpPath]
      conv_rhs => rw [← p.clean, Path.clean, p.abs]
      rw [← hqPath, q.abs]

theorem hasPathPrefix_root (hp : p.path ≠ "/") : hasPathPrefix p.path "/" = none := by
  obtain ⟨es, hes, hesNames, hpPath⟩ := p.exists_names hp
  refine Option.eq_none_iff_forall_not_mem.2 fun after hafter => ?_
  obtain ⟨happend, hhead⟩ := hasPathPrefix_eq_some.1 hafter
  obtain ⟨e, es, rfl⟩ := List.exists_cons_of_ne_nil hes
  obtain ⟨hnil, -, -, hslash⟩ := hesNames e List.mem_cons_self
  obtain ⟨c, cs, rfl⟩ := List.exists_cons_of_ne_nil hnil
  -- what follows the root is the first name, which does not begin with a separator
  have hafter' : after = c :: cs ++ below es := by
    rw [hpPath] at happend
    exact (List.cons.inj happend).2.symm
  exact hslash (hhead c (by rw [hafter']; rfl) ▸ List.mem_cons_self)

/-- **A directory is found below another by its text exactly if it is by its components**, unless
the other one is the root and the directory is not. -/
theorem decidesBelow_iff (p q : Directory) : DecidesBelow p q ↔ q.path ≠ "/" ∨ p.path = "/" := by
  constructor
  · intro h
    by_contra hroot
    obtain ⟨hq, hp⟩ := not_or.1 hroot
    have hq := not_not.1 hq
    have hsome := h.1.2 (by rw [Directory.components_root hq]; exact List.nil_prefix)
    rw [hq, hasPathPrefix_root hp] at hsome
    cases hsome
  · rintro (hq | hp)
    · exact decidesBelow_of_ne_root hq
    · by_cases hq : q.path = "/"
      · have hpq : p = q := by
          cases p
          cases q
          simp_all
        have hself : hasPathPrefix p.path p.path = some [] := by rw [hp]; decide +kernel
        subst hpq
        refine ⟨iff_of_true (by rw [hself]; rfl) (List.prefix_refl _), ?_⟩
        rw [hself, hp]
        rintro _ ⟨⟩
        decide +kernel
      · exact decidesBelow_of_ne_root hq

/-- `/home` is below the root, and is not found there. -/
theorem home_not_below_root :
    ¬ DecidesBelow ⟨"/home", by decide, by decide +kernel⟩ ⟨"/", by decide, by decide +kernel⟩ := by
  intro h
  have hsome := h.1.2 (by decide +kernel)
  revert hsome
  decide +kernel

end Graft.Placement
