import FilterQuery.Catalog.Definition

set_option autoImplicit false

/-! # The company catalog

Departments with their employees, and projects with their members. -/

namespace FilterQuery.Example

def scalar (name : String) (type : ScalarType) : AttributeDef := ⟨name, .scalar type, none, none⟩

def association (name : String) (kind : AssociationKind) (target : String)
    (mappedBy : Option String) : AttributeDef :=
  ⟨name, .association kind, some target, mappedBy⟩

def department : EntityDef where
  name := "Department"
  id := "id"
  attributes := [
    scalar "id" .integer,
    scalar "name" .string,
    scalar "budget" .float,
    scalar "createdAt" .instant,
    association "employees" .oneToMany "Employee" (some "department")]

def employee : EntityDef where
  name := "Employee"
  id := "id"
  attributes := [
    scalar "id" .integer,
    scalar "firstName" .string,
    scalar "lastName" .string,
    scalar "email" .string,
    scalar "yearOfBirth" .integer,
    scalar "salary" .float,
    scalar "birthDate" .date,
    scalar "startTime" .time,
    scalar "isPartTime" .boolean,
    scalar "lastLogin" .instant,
    scalar "lastLoginOffset" .offsetDateTime,
    scalar "lastLoginZoned" .zonedDateTime,
    scalar "lastLoginLocal" .localDateTime,
    scalar "lastLoginTime" .offsetTime,
    scalar "hiredAt" .timestamp,
    association "department" .manyToOne "Department" none,
    association "manager" .manyToOne "Employee" none,
    association "reports" .oneToMany "Employee" (some "manager"),
    association "projects" .manyToMany "Project" (some "members")]

def project : EntityDef where
  name := "Project"
  id := "id"
  attributes := [
    scalar "id" .integer,
    scalar "name" .string,
    scalar "startDate" .date,
    association "leader" .manyToOne "Employee" none,
    association "members" .manyToMany "Employee" none]

/-- The entities of the company. -/
def company : List EntityDef := [department, employee, project]

end FilterQuery.Example
