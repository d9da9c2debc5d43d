/-!
# Dictionaries

A finite map from names to values, held as a list of entries in ascending order of the names. The
order of names is the order of their code points, which is also the order of their UTF-8 bytes.

Since the order is strict, a dictionary has one entry per name at most, and two dictionaries that
answer every look-up alike are equal.
-/

namespace CommandGraph

namespace Entries

variable {α : Type}

/-- The entries are in strictly ascending order of their names. -/
def Ascending (entries : List (String × α)) : Prop :=
  entries.Pairwise fun a b => a.1 < b.1

/-- Puts `value` under `name`, in order, replacing what was there. -/
def insert (name : String) (value : α) : List (String × α) → List (String × α)
  | [] => [(name, value)]
  | (other, kept) :: rest =>
    if name < other then (name, value) :: (other, kept) :: rest
    else if name = other then (name, value) :: rest
    else (other, kept) :: insert name value rest

/-- An entry after an insertion is the new one or an old one. -/
theorem mem_insert {name : String} {value : α} {entry : String × α} {entries : List (String × α)}
    (h : entry ∈ insert name value entries) : entry = (name, value) ∨ entry ∈ entries := by
  induction entries with
  | nil => simpa [insert] using h
  | cons head rest ih =>
    simp only [insert] at h
    split at h
    · simpa using h
    · split at h
      · simp only [List.mem_cons] at h ⊢
        grind
      · simp only [List.mem_cons] at h ⊢
        grind

/-- Insertion keeps the order. -/
theorem Ascending.insert {entries : List (String × α)} (h : Ascending entries) (name : String)
    (value : α) : Ascending (insert name value entries) := by
  induction entries with
  | nil => simp [Ascending, Entries.insert]
  | cons head rest ih =>
    obtain ⟨other, kept⟩ := head
    obtain ⟨hhead, hrest⟩ := List.pairwise_cons.1 h
    simp only [Entries.insert]
    split
    next hlt =>
      refine List.pairwise_cons.2 ⟨?_, h⟩
      intro entry hentry
      rcases List.mem_cons.1 hentry with rfl | hentry
      · exact hlt
      · exact String.lt_trans hlt (hhead entry hentry)
    next hlt =>
      split
      next heq =>
        subst heq
        exact List.pairwise_cons.2 ⟨hhead, hrest⟩
      next hne =>
        refine List.pairwise_cons.2 ⟨?_, ih hrest⟩
        intro entry hentry
        -- What follows is the new entry or was there before.
        rcases mem_insert hentry with rfl | hentry
        · have hle : other ≤ name := String.not_lt.1 hlt
          rcases Decidable.em (other < name) with hlt' | hlt'
          · exact hlt'
          · exact absurd (String.le_antisymm (String.not_lt.1 hlt') hle) hne
        · exact hhead entry hentry

/-- Leaving entries out keeps the order. -/
theorem Ascending.filter {entries : List (String × α)} (h : Ascending entries)
    (keep : String × α → Bool) : Ascending (entries.filter keep) :=
  List.Pairwise.filter keep h

/-- Looking a name up goes past the entries of other names. -/
theorem lookup_cons (name key : String) (value : α) (rest : List (String × α)) :
    ((key, value) :: rest).lookup name = if name = key then some value else rest.lookup name := by
  by_cases h : name = key
  · rw [if_pos h, List.lookup_cons, beq_iff_eq.2 h]
  · rw [if_neg h, List.lookup_cons, beq_eq_false_iff_ne.2 h]

/-- What a look-up finds is one of the entries. -/
theorem mem_of_lookup {entries : List (String × α)} {name : String} {value : α}
    (h : entries.lookup name = some value) : (name, value) ∈ entries := by
  obtain ⟨before, after, rfl, -⟩ := List.lookup_eq_some_iff.1 h
  simp

/-- Looking up a name that occurs once finds its value. -/
theorem lookup_of_mem {entries : List (String × α)} (hnodup : (entries.map Prod.fst).Nodup)
    {name : String} {value : α} (h : (name, value) ∈ entries) :
    entries.lookup name = some value := by
  induction entries with
  | nil => cases h
  | cons head rest ih =>
    obtain ⟨key, kept⟩ := head
    obtain ⟨hkey, hrest⟩ := List.nodup_cons.1 hnodup
    rw [lookup_cons]
    rcases List.mem_cons.1 h with heq | hmem
    · obtain ⟨rfl, rfl⟩ := Prod.mk.inj heq
      rw [if_pos rfl]
    · have hne : name ≠ key := fun heq => hkey (List.mem_map.2 ⟨_, hmem, heq⟩)
      rw [if_neg hne, ih hrest hmem]

/-- Looking up after an insertion finds the new value under its name, and elsewhere what was
there. -/
theorem lookup_insert (name other : String) (value : α) (entries : List (String × α)) :
    (insert name value entries).lookup other =
      if other = name then some value else entries.lookup other := by
  induction entries with
  | nil => simp [insert, lookup_cons]
  | cons head rest ih =>
    obtain ⟨key, kept⟩ := head
    simp only [insert]
    split
    · simp only [lookup_cons]
    · split <;> simp only [lookup_cons, ih] <;> grind

/-- Leaving out a name's entries changes what look-ups of that name find, and no others. -/
theorem lookup_filter (name other : String) (entries : List (String × α)) :
    (entries.filter (·.1 != name)).lookup other =
      if other = name then none else entries.lookup other := by
  induction entries with
  | nil => simp
  | cons head rest ih =>
    obtain ⟨key, value⟩ := head
    rw [List.filter_cons]
    split <;> simp only [lookup_cons, ih] <;> grind

/-- A name below all others has no value. -/
theorem lookup_eq_none {entries : List (String × α)} {name : String}
    (h : ∀ entry ∈ entries, name < entry.1) : entries.lookup name = none := by
  induction entries with
  | nil => rfl
  | cons head rest ih =>
    obtain ⟨key, value⟩ := head
    have hne : name ≠ key := fun heq => String.lt_irrefl key (heq ▸ h _ List.mem_cons_self)
    rw [lookup_cons, if_neg hne]
    exact ih fun entry hentry => h entry (List.mem_cons_of_mem _ hentry)

/-- A first name has a value where it is first, so it is not below the first name of entries that
answer alike. -/
theorem Ascending.not_lt {k l : String} {v w : α} {xs ys : List (String × α)}
    (hy : Ascending ((l, w) :: ys))
    (h : ((k, v) :: xs).lookup k = ((l, w) :: ys).lookup k) : ¬ k < l := by
  intro hlt
  have hnone : ((l, w) :: ys).lookup k = none := lookup_eq_none fun entry hentry => by
    rcases List.mem_cons.1 hentry with rfl | hentry
    · exact hlt
    · exact String.lt_trans hlt ((List.pairwise_cons.1 hy).1 entry hentry)
  rw [hnone, lookup_cons, if_pos rfl] at h
  exact Option.some_ne_none v h

/-- Entries in ascending order are determined by what look-ups find. -/
theorem Ascending.ext {xs ys : List (String × α)} (hx : Ascending xs) (hy : Ascending ys)
    (h : ∀ name, xs.lookup name = ys.lookup name) : xs = ys := by
  induction xs generalizing ys with
  | nil =>
    cases ys with
    | nil => rfl
    | cons y ys => simpa [lookup_cons y.1 y.1 y.2 ys] using h y.1
  | cons x xs ih =>
    obtain ⟨k, v⟩ := x
    cases ys with
    | nil => simpa [lookup_cons k k v xs] using h k
    | cons y ys =>
      obtain ⟨l, w⟩ := y
      -- Neither of the first names may come before the other, since both lists have both.
      have hkl : k = l :=
        String.le_antisymm (String.not_lt.1 (hx.not_lt (h l).symm))
          (String.not_lt.1 (hy.not_lt (h k)))
      subst hkl
      have hvw : v = w := by simpa [lookup_cons] using h k
      subst hvw
      obtain ⟨hxhead, hxrest⟩ := List.pairwise_cons.1 hx
      obtain ⟨hyhead, hyrest⟩ := List.pairwise_cons.1 hy
      have hrest : xs = ys := ih hxrest hyrest fun name => by
        have hname := h name
        simp only [lookup_cons] at hname
        split at hname
        next heq => rw [heq, lookup_eq_none hxhead, lookup_eq_none hyhead]
        next => exact hname
      rw [hrest]

/-- Looking up from the end finds the same, since no name occurs twice. -/
theorem Ascending.lookup_reverse {entries : List (String × α)} (h : Ascending entries)
    (name : String) : entries.reverse.lookup name = entries.lookup name := by
  induction entries with
  | nil => rfl
  | cons head rest ih =>
    obtain ⟨key, value⟩ := head
    obtain ⟨hhead, hrest⟩ := List.pairwise_cons.1 h
    rw [List.reverse_cons, List.lookup_append, ih hrest, lookup_cons, lookup_cons]
    by_cases hname : name = key
    · rw [if_pos hname, if_pos hname, hname, lookup_eq_none hhead, Option.none_or]
    · rw [if_neg hname, if_neg hname, List.lookup_nil, Option.or_none]

end Entries

/-- A finite map from names to values. -/
structure Dictionary (α : Type) where
  /-- The entries, in ascending order of the names. -/
  entries : List (String × α)
  /-- The names ascend strictly. -/
  ascending : Entries.Ascending entries

namespace Dictionary

variable {α : Type}

/-- The dictionary without entries. -/
def empty : Dictionary α :=
  ⟨[], List.Pairwise.nil⟩

/-- The value under `name`. -/
def find? (d : Dictionary α) (name : String) : Option α :=
  d.entries.lookup name

/-- Puts `value` under `name`, replacing what was there. -/
def insert (d : Dictionary α) (name : String) (value : α) : Dictionary α :=
  ⟨Entries.insert name value d.entries, d.ascending.insert name value⟩

/-- Removes what is under `name`. -/
def erase (d : Dictionary α) (name : String) : Dictionary α :=
  ⟨d.entries.filter (·.1 != name), d.ascending.filter _⟩

/-- Puts every entry of a list into the dictionary, from the first on, so the last one wins. -/
def insertAll (d : Dictionary α) (entries : List (String × α)) : Dictionary α :=
  entries.foldl (fun d entry => d.insert entry.1 entry.2) d

/-- The dictionary of a list of entries; of several under one name the last one counts. -/
def ofList (entries : List (String × α)) : Dictionary α :=
  empty.insertAll entries

/-- The first dictionary with every entry of the second laid over it. -/
def overlay (d top : Dictionary α) : Dictionary α :=
  d.insertAll top.entries

/-- An empty dictionary has nothing under any name. -/
theorem find?_empty (name : String) : (empty : Dictionary α).find? name = none := rfl

/-- After an insertion the name has the new value, and every other name what it had. -/
theorem find?_insert (d : Dictionary α) (name other : String) (value : α) :
    (d.insert name value).find? other = if other = name then some value else d.find? other :=
  Entries.lookup_insert name other value d.entries

/-- After a removal the name has no value, and every other name what it had. -/
theorem find?_erase (d : Dictionary α) (name other : String) :
    (d.erase name).find? other = if other = name then none else d.find? other :=
  Entries.lookup_filter name other d.entries

/-- After all entries of a list are put in, a name has the last of its values in the list, or else
what it had. -/
theorem find?_insertAll (d : Dictionary α) (entries : List (String × α)) (name : String) :
    (d.insertAll entries).find? name = (entries.reverse.lookup name).or (d.find? name) := by
  induction entries generalizing d with
  | nil => rfl
  | cons entry rest ih =>
    obtain ⟨key, value⟩ := entry
    change ((d.insert key value).insertAll rest).find? name = _
    rw [ih, find?_insert, List.reverse_cons, List.lookup_append, Entries.lookup_cons,
      Option.or_assoc]
    split <;> simp

/-- After one dictionary is laid over another, a name has its value in the first, or else in the
other. -/
theorem find?_overlay (d top : Dictionary α) (name : String) :
    (d.overlay top).find? name = (top.find? name).or (d.find? name) := by
  rw [overlay, find?_insertAll, top.ascending.lookup_reverse]
  rfl

/-- An entry after all entries of a list are put in is one of them or an old one. -/
theorem mem_entries_insertAll {d : Dictionary α} {entries : List (String × α)} {entry : String × α}
    (h : entry ∈ (d.insertAll entries).entries) : entry ∈ d.entries ∨ entry ∈ entries := by
  induction entries generalizing d with
  | nil => exact .inl h
  | cons head rest ih =>
    rcases @ih (d.insert head.1 head.2) h with hold | hrest
    · rcases Entries.mem_insert hold with rfl | hold
      · exact .inr List.mem_cons_self
      · exact .inl hold
    · exact .inr (List.mem_cons_of_mem _ hrest)

/-- The entries of a dictionary are among those of the list that it is made of. -/
theorem mem_of_mem_entries_ofList {entries : List (String × α)} {entry : String × α}
    (h : entry ∈ (ofList entries).entries) : entry ∈ entries :=
  (mem_entries_insertAll h).resolve_left List.not_mem_nil

/-- A dictionary has a value under the names of the list that it is made of, and no others. -/
theorem isSome_find?_ofList_iff {entries : List (String × α)} {name : String} :
    ((ofList entries).find? name).isSome ↔ name ∈ entries.map Prod.fst := by
  rw [ofList, find?_insertAll, find?_empty, Option.or_none, List.lookup_isSome_iff]
  simp only [List.mem_reverse, beq_iff_eq, List.mem_map, eq_comm (a := name)]

/-- Two dictionaries that answer every look-up alike are equal. -/
theorem ext_find? {d e : Dictionary α} (h : ∀ name, d.find? name = e.find? name) : d = e := by
  obtain ⟨xs, hx⟩ := d
  obtain ⟨ys, hy⟩ := e
  obtain rfl : xs = ys := hx.ext hy h
  rfl

/-- A dictionary laid over one that has no other names replaces it. -/
theorem overlay_eq {d top : Dictionary α}
    (h : ∀ name, (d.find? name).isSome → (top.find? name).isSome) : d.overlay top = top := by
  refine ext_find? fun name => ?_
  rw [find?_overlay]
  cases hold : d.find? name with
  | none => exact Option.or_none
  | some value =>
    obtain ⟨new, hnew⟩ := Option.isSome_iff_exists.1 (h name (by rw [hold]; rfl))
    rw [hnew, Option.some_or]

/-- A dictionary is made of its own entries. -/
theorem ofList_entries (d : Dictionary α) : ofList d.entries = d := by
  refine ext_find? fun name => ?_
  rw [ofList, find?_insertAll, find?_empty, Option.or_none, d.ascending.lookup_reverse]
  rfl

/-- Under a name that occurs once in the list, a dictionary has the value that stands there. -/
theorem find?_ofList_of_mem {entries : List (String × α)} (hnodup : (entries.map Prod.fst).Nodup)
    {name : String} {value : α} (h : (name, value) ∈ entries) :
    (ofList entries).find? name = some value := by
  rw [ofList, find?_insertAll, find?_empty, Option.or_none]
  refine Entries.lookup_of_mem ?_ (List.mem_reverse.2 h)
  rw [List.map_reverse]
  exact List.pairwise_reverse.2 (hnodup.imp Ne.symm)

/-- Lists that give values to the same names, each once, are determined by their dictionaries. -/
theorem ofList_inj {xs ys : List (String × α)} (hnames : xs.map Prod.fst = ys.map Prod.fst)
    (hnodup : (xs.map Prod.fst).Nodup) : ofList xs = ofList ys ↔ xs = ys := by
  refine ⟨fun h => ?_, fun h => congrArg ofList h⟩
  have hlength : xs.length = ys.length := by simpa using congrArg List.length hnames
  refine List.ext_getElem hlength fun i hx hy => ?_
  have hname : xs[i].1 = ys[i].1 := by
    have := congrArg (fun names => names[i]?) hnames
    simpa [hx, hy] using this
  have hxs : (ofList xs).find? xs[i].1 = some xs[i].2 :=
    find?_ofList_of_mem hnodup (List.getElem_mem hx)
  have hys : (ofList ys).find? ys[i].1 = some ys[i].2 :=
    find?_ofList_of_mem (hnames ▸ hnodup) (List.getElem_mem hy)
  rw [h, hname, hys] at hxs
  exact Prod.ext hname (Option.some.inj hxs).symm

end Dictionary

end CommandGraph
