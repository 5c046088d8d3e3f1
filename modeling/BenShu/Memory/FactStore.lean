import BenShu.Lib.OrderedTable
import BenShu.Memory.Relations
import BenShu.Memory.ShortTerm

/-!
# The facts of the short-term memory

One table keeps the facts of all users and agents. The key of a row is the key of the user
and the agent, a colon and the id of the fact.
-/

namespace BenShu.Memory

open Protocol

/-- What a security handler makes of the contents of facts; `none` is a failure. -/
structure SecurityHandler where
  encryptFact : String → Option String
  decryptFact : String → Option String

structure FactStore where
  facts : Table String Fact := ∅

abbrev FactRow := (_ : String) × Fact

def factKey (who : Partition) (factId : String) : String := s!"{key who}:{factId}"

def sensitiveCategories : List String :=
  ["secret", "private", "credential", "password", "bank", "identity"]

def clampImportance (importance : ℚ) : ℚ :=
  if importance < 0 then 0 else if 1 < importance then 1 else importance

def encrypted (toLowercase : String → String) (security : Option SecurityHandler) (fact : Fact) :
    Fact :=
  if toLowercase fact.category ∈ sensitiveCategories then
    match security.bind (·.encryptFact fact.content) with
    | some content => { fact with content := content }
    | none => fact
  else fact

def decrypted (security : Option SecurityHandler) (fact : Fact) : Fact :=
  if Text.startsWith fact.content "enc:" then
    match security.bind (·.decryptFact fact.content) with
    | some content => { fact with content := content }
    | none => fact
  else fact

namespace FactStore

def storeFact (toLowercase : String → String) (security : Option SecurityHandler) (who : Partition)
    (fact : Fact) (store : FactStore) : FactStore :=
  { store with
    facts := store.facts.insert (factKey who fact.id) (encrypted toLowercase security fact) }

def deleteFact (who : Partition) (factId : String) (store : FactStore) : FactStore :=
  { store with facts := store.facts.erase (factKey who factId) }

def retrievedRows (who : Partition) (store : FactStore) : List FactRow :=
  store.facts.scan s!"{key who}:"

def retrieveFacts (security : Option SecurityHandler) (who : Partition) (store : FactStore) :
    List Fact :=
  (store.retrievedRows who).map fun row => decrypted security row.2

/-- All the rows whose keys start with the key of the partition; of those with the same id
the last one remains. -/
def factsById (who : Partition) (store : FactStore) : Table String FactRow :=
  Table.indexedBy (fun row => row.2.id)
    (store.facts.inOrder.filter fun row => Text.startsWith row.1 (key who))

def relatedRows (who : Partition) (factId : String) (depth : Nat) (store : FactStore) :
    List FactRow :=
  traverseRelatedFacts (fun row => row.2.relations) (store.factsById who) factId depth

def findRelatedFacts (who : Partition) (factId : String) (depth : Nat) (store : FactStore) :
    List Fact :=
  (store.relatedRows who factId depth).map (·.2)

/-- Updates go by the id of the fact, under whatever key it is kept. -/
def updateFactById (update : Fact → Fact) (factId : String) (store : FactStore) : FactStore :=
  { store with
    facts := store.facts.collect fun fact => some (if fact.id = factId then update fact else fact) }

def updateFactStatus (factId : String) (status : FactStatus) (now : DateTime) :
    FactStore → FactStore :=
  updateFactById (fun fact => { fact with
    status := status, verified := status == .verified, updatedAt := now }) factId

def updateFactImportanceById (factId : String) (importance : ℚ) (now : DateTime) :
    FactStore → FactStore :=
  updateFactById (fun fact => { fact with
    importance := clampImportance importance, updatedAt := now }) factId

def updateFactProtectionById (factId : String) (protection : FactProtection) (now : DateTime) :
    FactStore → FactStore :=
  updateFactById (fun fact => { fact with protection := protection, updatedAt := now }) factId

end FactStore

/-! ## Keys -/

theorem toList_factKey (who : Partition) (factId : String) :
    (factKey who factId).toList = (key who ++ ":").toList ++ factId.toList := by
  simp [factKey, ToString.toString, String.toList_append]

theorem factKey_injective {who : Partition} {factId factId' : String}
    (h : factKey who factId = factKey who factId') : factId = factId' := by
  have hlist := congrArg String.toList h
  rw [toList_factKey, toList_factKey] at hlist
  exact String.toList_injective (List.append_cancel_left hlist)

@[simp] theorem encrypted_id (toLowercase : String → String) (security : Option SecurityHandler)
    (fact : Fact) : (encrypted toLowercase security fact).id = fact.id := by
  unfold encrypted
  split_ifs
  · rcases security.bind (·.encryptFact fact.content) with _ | content <;> rfl
  · rfl

/-! ## What the operations do to the rows -/

namespace FactStore

theorem lookup_storeFact (toLowercase : String → String) (security : Option SecurityHandler)
    (who : Partition) (fact : Fact) (store : FactStore) (key : String) :
    (store.storeFact toLowercase security who fact).facts.lookup key =
      if key = factKey who fact.id then some (encrypted toLowercase security fact)
      else store.facts.lookup key :=
  Table.lookup_insert _ _ _ _

theorem lookup_deleteFact (who : Partition) (factId : String) (store : FactStore) (key : String) :
    (store.deleteFact who factId).facts.lookup key =
      if key = factKey who factId then none else store.facts.lookup key :=
  Table.lookup_erase _ _ _

theorem lookup_updateFactById (update : Fact → Fact) (factId : String) (store : FactStore)
    (key : String) :
    (store.updateFactById update factId).facts.lookup key =
      (store.facts.lookup key).map fun fact => if fact.id = factId then update fact else fact := by
  unfold updateFactById
  rw [Table.lookup_collect]
  rcases store.facts.lookup key with _ | fact <;> rfl

/-! ## What the listings read -/

theorem mem_retrievedRows {who : Partition} {store : FactStore} {row : FactRow} :
    row ∈ store.retrievedRows who ↔
      store.facts.lookup row.1 = some row.2 ∧ (key who ++ ":").toList <+: row.1.toList := by
  have hstarts : s!"{key who}:" = key who ++ ":" := by simp [ToString.toString]
  rw [retrievedRows, Table.mem_scan, hstarts]

theorem lookup_of_factsById {who : Partition} {store : FactStore} {factId : String} {row : FactRow}
    (h : (store.factsById who).lookup factId = some row) :
    store.facts.lookup row.1 = some row.2 ∧ (key who).toList <+: row.1.toList ∧
      row.2.id = factId := by
  obtain ⟨hmem, hid⟩ := Table.mem_of_lookup_indexedBy h
  rw [List.mem_filter, Table.mem_inOrder, Text.startsWith_iff] at hmem
  exact ⟨hmem.1, hmem.2, hid⟩

theorem factsById_of_unique {who : Partition} {store : FactStore} {row : FactRow}
    (hrow : store.facts.lookup row.1 = some row.2) (hstarts : (key who).toList <+: row.1.toList)
    (hunique : ∀ key fact, store.facts.lookup key = some fact → fact.id = row.2.id → key = row.1) :
    (store.factsById who).lookup row.2.id = some row := by
  refine Table.lookup_indexedBy_of_unique (f := fun row : FactRow => row.2.id) ?_ ?_
  · rw [List.mem_filter, Table.mem_inOrder, Text.startsWith_iff]
    exact ⟨hrow, hstarts⟩
  · rintro ⟨key, fact⟩ hmem hid
    rw [List.mem_filter, Table.mem_inOrder] at hmem
    have hkey := hunique key fact hmem.1 hid
    subst hkey
    have hfact : some fact = some row.2 := hmem.1.symm.trans hrow
    cases hfact
    rfl

section Agree

variable {who : Partition} {store store' : FactStore}

theorem factsById_congr (h : ∀ k, (key who).toList <+: k.toList →
    store.facts.lookup k = store'.facts.lookup k) : store.factsById who = store'.factsById who := by
  unfold factsById
  rw [Table.filter_inOrder_congr (p := fun k => Text.startsWith k (key who)) fun k hk =>
    h k (Text.startsWith_iff.mp hk)]

theorem retrievedRows_congr (h : ∀ k, (key who).toList <+: k.toList →
    store.facts.lookup k = store'.facts.lookup k) :
    store.retrievedRows who = store'.retrievedRows who := by
  have hstarts : s!"{key who}:" = key who ++ ":" := by simp [ToString.toString]
  unfold retrievedRows
  rw [Table.scan_eq_filter, Table.scan_eq_filter, hstarts]
  refine Table.filter_inOrder_congr (p := fun k => (key who ++ ":").toList.isPrefixOf k.toList)
    fun k hk => h k ?_
  rw [List.isPrefixOf_iff_prefix, String.toList_append] at hk
  exact (List.prefix_append _ _).trans hk

end Agree

end FactStore

end BenShu.Memory
