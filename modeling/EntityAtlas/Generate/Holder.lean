import EntityAtlas.Package

/-!
# The accessor class

One class is written beside all metadata classes: it gives them access to the mapping of entities to tables.
-/

namespace EntityAtlas.Generate.Holder

def package : String := "org.springframework.data.r2dbc.config"

def name : String := "StaticR2dbcEntityTemplateAccessor_"

def lines : List String :=
  ["package org.springframework.data.r2dbc.config;",
    "",
    "import org.springframework.beans.BeansException;",
    "import org.springframework.context.ApplicationContext;",
    "import org.springframework.context.ApplicationContextAware;",
    "import org.springframework.data.mapping.PersistentEntity;",
    "import org.springframework.data.r2dbc.core.R2dbcEntityTemplate;",
    "import org.springframework.data.relational.core.mapping.RelationalPersistentEntity;",
    "import org.springframework.data.relational.core.sql.SqlIdentifier;",
    "import org.springframework.data.relational.core.sql.Table;",
    "import org.springframework.data.util.Lazy;",
    "import org.springframework.stereotype.Component;",
    "",
    "@Component",
    "public final class StaticR2dbcEntityTemplateAccessor_ implements ApplicationContextAware \x7b",
    "",
    "  private static Lazy<R2dbcEntityTemplate> r2dbcEntityTemplate;",
    "",
    "  public static R2dbcEntityTemplate getTemplate() \x7b",
    "    if (r2dbcEntityTemplate == null) \x7b",
    "      throw new IllegalStateException(",
    "          \"StaticR2dbcEntityTemplateAccessor_ has not been initialized yet." ++
      " Ensure it is registered as a Spring bean.\");",
    "    \x7d",
    "    return r2dbcEntityTemplate.get();",
    "  \x7d",
    "",
    "  public static <T> RelationalPersistentEntity<T> getPersistentEntity(Class<T> entityType) \x7b",
    "    PersistentEntity<?, ?> persistentEntity = getTemplate()",
    "        .getConverter()",
    "        .getMappingContext()",
    "        .getPersistentEntity(entityType);",
    "    if (persistentEntity == null) \x7b",
    "      throw new IllegalArgumentException(\"Entity '\" + entityType.getSimpleName()",
    "          + \"' is not managed by the current mapping context.\");",
    "    \x7d",
    "    return (RelationalPersistentEntity<T>) persistentEntity;",
    "  \x7d",
    "",
    "  public static Table getTable(Class entityType) \x7b",
    "    return getTable(entityType, null);",
    "  \x7d",
    "",
    "  public static Table getTable(Class entityType, String tableNamePrefix) \x7b",
    "    tableNamePrefix = (tableNamePrefix == null || tableNamePrefix.trim().isEmpty())",
    "        ? \"_\"",
    "        : \"_\" + tableNamePrefix.trim().toLowerCase() + \"_\";",
    "    SqlIdentifier tableName = getPersistentEntity(entityType).getTableName();",
    "    String alias = tableNamePrefix + entityType.getSimpleName().toLowerCase();",
    "    return Table.aliased(tableName.getReference(), alias);",
    "  \x7d",
    "",
    "  @Override",
    "  public void setApplicationContext(ApplicationContext applicationContext) throws BeansException \x7b",
    "    r2dbcEntityTemplate = Lazy.of(() -> applicationContext.getBean(R2dbcEntityTemplate.class));",
    "  \x7d",
    "\x7d"]

/-- The file of the class below an output directory. -/
def path (output : Path) : Path :=
  (Package.outputDirectory output (some package)).join (name ++ ".java")

end EntityAtlas.Generate.Holder
